import Coup.Game.Outcome

/-!
# The end of the game

`isGameOver` counts eliminated players, so it is right as long as a turn never
eliminates everybody.  The invariant is that the loop runs exactly while the
user and at least one AI are in the game, that somebody always is, and that
the status tells the winner once the loop has stopped.
-/

namespace Coup

open Coup.Support

/-- The user and at least one AI have an unrevealed card. -/
def Undecided (w : World) (user : PlayerRef) (AIs : List PlayerRef) : Prop :=
  w.isPlayerRevealed user = false ∧
    ∃ p ∈ AIs, w.isPlayerRevealed p = false

/-- The verdict at the end of every turn. -/
structure Judged (user : PlayerRef) (AIs : List PlayerRef) (s : State) :
    Prop where
  survivor : ∃ p ∈ s.world.players, s.world.isPlayerRevealed p = false
  loop : s.vc.gameOn = true ↔ Undecided s.world user AIs
  won : s.vc.gameOn = false →
    (s.vc.status = .youWon ↔ s.world.isPlayerRevealed user = false)
  lost : s.vc.gameOn = false →
    (s.vc.status = .youLose ↔ s.world.isPlayerRevealed user = true)

section Step

variable {created : List CardRef} {w : World} {user : PlayerRef}
  {AIs : List PlayerRef} {s s₁ s₂ s' : State} {i : TurnInput}
  {p : PlayerRef} {m : Move} {y y' : Session} {e : Event}

/-- The test in `isGameOver` is the right one. -/
theorem gameOver_iff (hin : InPlay created w user AIs s) :
    GameOver s ↔ ¬ Undecided s.world user AIs := by
  have hcount : countFalse s = AIs.countP s.world.isPlayerRevealed +
      if s.world.isPlayerRevealed user = true then 1 else 0 := by
    rw [countFalse, hin.players, List.countP_cons]
  rw [GameOver, hcount, hin.players, hin.user, List.length_cons, Undecided]
  cases huser : s.world.isPlayerRevealed user with
  | true => simp
  | false =>
      have hall : AIs.countP s.world.isPlayerRevealed = AIs.length ↔
          ∀ p ∈ AIs, s.world.isPlayerRevealed p = true :=
        List.countP_eq_length
      simp only [Bool.false_eq_true, if_false, Nat.add_zero, or_false,
        true_and, not_exists, not_and, Bool.not_eq_false]
      rw [← hall]
      omega

theorem GameOver.congr (hworld : s'.world = s.world)
    (huser : s'.vc.user = s.vc.user) : GameOver s' ↔ GameOver s := by
  rw [GameOver, GameOver, countFalse, countFalse, hworld, huser]

/-- A turn ends with the test of `isGameOver`. -/
theorem TakesTurn.verdict (hin : InPlay created w user AIs s)
    (hmove : s.vc.didPlayerMove = true → Pressed s)
    (h : TakesTurn s i p m s₁ s₂ s') :
    (GameOver s' ∧ s'.vc.gameOn = false ∧
        s'.vc.status = if s'.world.isPlayerRevealed user then .youLose
          else .youWon) ∨
      (¬ GameOver s' ∧ s'.vc.gameOn = s.vc.gameOn) := by
  have hq := (h.quiet hin).evolves
  obtain ⟨hevolves, -⟩ :=
    playMove_spec (h.logged_shows hin) (h.ready hin hmove) h.played
  have hplayers := (h.inPlay hin hmove).players
  obtain ⟨hworld, hvc, hend⟩ := endTurn_spec h.ended
  have hover : GameOver s' ↔ GameOver s₂ :=
    GameOver.congr hworld (by rw [hvc])
  rw [hover]
  rcases hend with ⟨hyes, hoff, player0, hplayer, hstatus⟩ | ⟨hno, hon, -⟩
  · rw [← hworld, hplayers] at hplayer
    cases hplayer
    rw [← hworld] at hstatus
    exact Or.inl ⟨hyes, hoff, hstatus⟩
  · exact Or.inr ⟨hno, hon.trans (hevolves.gameOn.trans hq.gameOn)⟩

/-- A turn never eliminates everybody: a caller who keeps the move stays in the
game, and a caller who is caught loses only their own card. -/
theorem Outcome.survivor (hin : InPlay created w user AIs s)
    (hundecided : Undecided s.world user AIs) (hlegal : Legal s.world p m)
    (hp : p ∈ s.world.players) (hactive : s.world.isPlayerRevealed p = false)
    (hplayers : s'.world.players = s.world.players)
    (h : Outcome created s s₁ i p m s') :
    ∃ q ∈ s'.world.players, s'.world.isPlayerRevealed q = false := by
  have hp' : p ∈ s'.world.players := hplayers ▸ hp
  have halive : s.world.board.influence p ≠ 0 :=
    (s.world.not_out_board p).mpr hactive
  have hstays : s.world.board.influence p ≤ s'.world.board.influence p →
      ∃ q ∈ s'.world.players, s'.world.isPlayerRevealed q = false := by
    intro hle
    refine ⟨p, hp', (s'.world.not_out_board p).mp ?_⟩
    intro hout
    have hzero : s'.world.board.influence p = 0 := hout
    omega
  cases h with
  | accepted _ hshows =>
      apply hstays
      rw [hshows.influence hp', Board.act_influence,
        if_neg fun hhit => hlegal.target_ne_of_hits hhit.1 hhit.2.symm]
      exact le_rfl
  | won c j _ _ hne _ _ hshows =>
      apply hstays
      rw [hshows.influence hp', Board.winChallenge_influence_self _ hne
        fun hhits => hlegal.target_ne_of_hits hhits]
      exact Nat.le_add_right _ _
  | lost _ _ _ hshows =>
      obtain ⟨huser, q, hq, hqactive⟩ := hundecided
      obtain ⟨hqseated, hqne⟩ := hin.mem_AIs hq
      have hother : ∀ r ∈ s.world.players, r ≠ p →
          s.world.isPlayerRevealed r = false →
          ∃ q ∈ s'.world.players, s'.world.isPlayerRevealed q = false := by
        intro r hr hrp hractive
        have hr' : r ∈ s'.world.players := hplayers ▸ hr
        refine ⟨r, hr', (s'.world.not_out_board r).mp ?_⟩
        rw [Board.Out, hshows.influence hr', Board.influence_lose, if_neg hrp]
        exact (s.world.not_out_board r).mpr hractive
      by_cases hpu : p = user
      · exact hother q hqseated (hpu ▸ hqne) hqactive
      · exact hother user hin.user_seated (Ne.symm hpu) huser
  | dropped _ hshows => exact hstays (hshows.influence hp').ge

theorem TakesTurn.judged (hin : InPlay created w user AIs s)
    (hnames : DistinctNames w) (hmove : s.vc.didPlayerMove = true → Pressed s)
    (hon : s.vc.gameOn = true) (hjudged : Judged user AIs s)
    (h : TakesTurn s i p m s₁ s₂ s') : Judged user AIs s' := by
  obtain ⟨hpasses, -⟩ := h.spec hin hmove
  have hover := gameOver_iff (h.inPlay hin hmove)
  have hsurvivor := (h.outcome hin hmove).survivor hin (hjudged.loop.mp hon)
    (h.legal hin hnames hmove) h.seated h.active hpasses.table.players
  rcases h.verdict hin hmove with ⟨hyes, hoff, hstatus⟩ | ⟨hno, hkeep⟩
  · refine ⟨hsurvivor, ?_, fun _ => ?_, fun _ => ?_⟩
    · rw [hoff]
      exact ⟨(fun h => by cases h), fun h => absurd h (hover.mp hyes)⟩
    · rw [hstatus]
      cases s'.world.isPlayerRevealed user <;> simp
    · rw [hstatus]
      cases s'.world.isPlayerRevealed user <;> simp
  · have hrunning : s'.vc.gameOn = true := hkeep.trans hon
    refine ⟨hsurvivor, ?_, ?_, ?_⟩
    · exact ⟨fun _ => not_not.mp (mt hover.mpr hno), fun _ => hrunning⟩
    · intro hoff
      rw [hrunning] at hoff
      cases hoff
    · intro hoff
      rw [hrunning] at hoff
      cases hoff

theorem Judged.congr (h : Judged user AIs s) (hworld : s'.world = s.world)
    (hon : s'.vc.gameOn = s.vc.gameOn) (hstatus : s'.vc.status = s.vc.status) :
    Judged user AIs s' := by
  refine ⟨hworld ▸ h.survivor, ?_, ?_, ?_⟩
  · rw [hworld, hon]
    exact h.loop
  · rw [hworld, hon, hstatus]
    exact h.won
  · rw [hworld, hon, hstatus]
    exact h.lost

theorem Judged.step (hrunning : Running created w user AIs y)
    (hnames : DistinctNames w) (h : Judged user AIs y.game)
    (hstep : stepSession y e = .ok y') (hne : e ≠ .endGame) :
    Judged user AIs y'.game := by
  cases stepSession_spec hstep with
  | turn i p m s₁ s₂ s _ hon hturn =>
      exact hturn.judged hrunning.inPlay hnames hrunning.phase.pressed hon h
  | skip | deliver => exact h.congr rfl rfl rfl
  | start | prompt | finish | wake => exact h
  | press q caller s _ _ _ hsubmits =>
      exact h.congr hsubmits.world (by rw [hsubmits.vc]) (by rw [hsubmits.vc])
  | endGame => exact absurd rfl hne

end Step

/-- Every run that the user does not cut short is judged rightly: somebody is
always in the game, the loop goes on exactly while the user and some AI are,
every turn is taken in such a state, and the status names the winner. -/
theorem game_judged {w : World} {user : PlayerRef} {AIs : List PlayerRef}
    {base : CardRef} {shuffling dealing : List ℕ} {y₀ y : Session}
    {es : List Event} (hlobby : Lobby w user AIs) (hnames : DistinctNames w)
    (hopen : openSession w base shuffling dealing = .ok y₀)
    (hrun : run stepSession y₀ es = .ok y) (hstay : ∀ e ∈ es, e ≠ .endGame) :
    (∃ p ∈ y.game.world.players, y.game.world.isPlayerRevealed p = false) ∧
      (y.game.vc.gameOn = true ↔ Undecided y.game.world user AIs) ∧
      (∀ i y', stepSession y (.iterate i) = .ok y' →
        Undecided y.game.world user AIs) ∧
      (y.game.vc.gameOn = false →
        (y.game.vc.status = .youWon ↔
          y.game.world.isPlayerRevealed user = false) ∧
        (y.game.vc.status = .youLose ↔
          y.game.world.isPlayerRevealed user = true) ∧
        (y.game.world.isPlayerRevealed user = false →
          ∀ p ∈ AIs, y.game.world.isPlayerRevealed p = true)) := by
  obtain ⟨hstart, -, hdealt, -, -, hon⟩ := openSession_spec hlobby hopen
  have hinvariant : Running (createdCards base) (w.createCards base) user AIs y ∧
      Judged user AIs y.game := by
    refine run_invariant_of_eachStep (P := fun _ e _ => e ≠ .endGame)
      (I := fun y => Running (createdCards base) (w.createCards base) user AIs
        y ∧ Judged user AIs y.game) ?_ hrun ?_ ⟨hstart, ?_⟩
    · rintro y e y' ⟨hrunning, hjudged⟩ hstep hne
      exact ⟨hrunning.step hstep, hjudged.step hrunning hnames hstep hne⟩
    · rintro pre e post m m' rfl - -
      exact hstay e (List.mem_append_right _ List.mem_cons_self)
    · have hplayers := hstart.inPlay.players
      have huser := (hdealt user hstart.inPlay.user_seated).1
      obtain ⟨q, hq⟩ := List.exists_mem_of_ne_nil AIs hlobby.opponents
      have hqseated := (hstart.inPlay.mem_AIs hq).1
      refine ⟨⟨user, hstart.inPlay.user_seated, huser⟩, ?_, ?_, ?_⟩
      · exact ⟨fun _ => ⟨huser, q, hq, (hdealt q hqseated).1⟩, fun _ => hon⟩
      · intro hoff
        rw [hon] at hoff
        cases hoff
      · intro hoff
        rw [hon] at hoff
        cases hoff
  obtain ⟨-, hjudged⟩ := hinvariant
  refine ⟨hjudged.survivor, hjudged.loop, ?_, fun hoff =>
    ⟨hjudged.won hoff, hjudged.lost hoff, ?_⟩⟩
  · intro i y' hstep
    exact hjudged.loop.mp (stepSession_iterate hstep).2.1
  · intro huser p hp
    by_contra hactive
    have hundecided : Undecided y.game.world user AIs :=
      ⟨huser, p, hp, Bool.eq_false_of_not_eq_true hactive⟩
    rw [hjudged.loop.mpr hundecided] at hoff
    cases hoff

/-- The user is caught twice without an Ambassador. -/
def caughtTwice : List Event :=
  [.start, scripted .allow .least 1 [] [], .deliver, .wake, .press .exchange,
    .start, scripted .allow .least 1 [] [], scripted .allow .least 1 [] [],
    scripted .allow .least 1 [] [], .deliver, .press .exchange, .wake, .start,
    scripted .allow .least 1 [] [], .finish]

theorem game_judged_caughtTwice :
    ∃ y₀ y, openSession (lobbyOf "user" ["Charlie Puth"] []) 0 (List.range 15)
        [4, 8] = .ok y₀ ∧
      run stepSession y₀ caughtTwice = .ok y ∧ y.game.vc.gameOn = false ∧
      y.game.vc.status = .youLose ∧
      (y.game.vc.status = .youLose ↔
        y.game.world.isPlayerRevealed 0 = true) := by
  have hlast : lastStep stepSession
      (openSession (lobbyOf "user" ["Charlie Puth"] []) 0 (List.range 15)
        [4, 8]) caughtTwice .endGame
      (fun y _ => decide (y.game.vc.gameOn = false ∧
        y.game.vc.status = .youLose)) = true := by
    decide +kernel
  obtain ⟨y₀, y, -, hopen, hrun, -, hP⟩ := exists_of_lastStep hlast
  obtain ⟨hoff, hstatus⟩ := of_decide_eq_true hP
  have hjudged := game_judged
    (lobbyOf_one "user" "Charlie Puth")
    (lobbyOf_distinctNames [] (by decide)) hopen hrun
    (by simp [caughtTwice, scripted])
  exact ⟨y₀, y, hopen, hrun, hoff, hstatus, (hjudged.2.2.2 hoff).2.1⟩

end Coup
