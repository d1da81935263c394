import Coup.Game.Targets
import Coup.Game.Verdict
import Coup.Rules.Replay

/-!
# The record of a game

Every turn of a session makes one ruling: the move that is logged, and how the
challenge round and the answer to the challenge end it.  Replaying the rulings
gives the cards and coins that everybody sees, so what holds of every replay
holds of every game.
-/

namespace Coup

open Coup.Support

/-! ## The rulings of a session -/

/-- How the turn of `p` ends once the move is logged. -/
def endingOf (s : State) (p : PlayerRef) (m : Move) (i : RoundInput) :
    Ending PlayerRef :=
  if challengeable m.name then
    match anyChallenges s m i with
    | .ok (s', o) =>
        if o.name = .challenge then
          match slotOf (s'.world.checkhaveCard p m.name) with
          | some j => .won o.caller j
          | none => .caught o.caller
        else if o.name = .allow then .allowed
        else .dropped
    | .error _ => .dropped
  else .allowed

/-- The ruling of one iteration of the loop, if it takes a turn. -/
def rulingOf (s : State) (i : TurnInput) : Option (Ruling PlayerRef) :=
  match selectMove s i.ai with
  | .ok (s₁, p, .move m) =>
      some ⟨m.name, p, m.target, endingOf (logMove s₁ m) p m i.round⟩
  | _ => none

/-- What a step adds to the record. -/
def rulings (y : Session) (e : Event) (_ : Session) :
    List (Ruling PlayerRef) :=
  match e with
  | .iterate i => (rulingOf y.game i).toList
  | _ => []

/-- The logged move of a ruling. -/
def Ruling.move (r : Ruling PlayerRef) : Move := ⟨r.name, r.caller, r.target⟩

section Turn

variable {created : List CardRef} {w : World} {user : PlayerRef}
  {AIs : List PlayerRef} {s s₁ s₂ s' : State} {i : TurnInput}
  {p : PlayerRef} {m : Move} {y y' : Session} {e : Event}

/-- The ruling of a turn. -/
def turnRuling (s₁ : State) (i : TurnInput) (p : PlayerRef) (m : Move) :
    Ruling PlayerRef :=
  ⟨m.name, p, m.target, endingOf (logMove s₁ m) p m i.round⟩

theorem TakesTurn.rulingOf (h : TakesTurn s i p m s₁ s₂ s') :
    rulingOf s i = some (turnRuling s₁ i p m) := by
  rw [Coup.rulingOf, h.selected]
  rfl

theorem rulingOf_seatOut (h : SeatOut s) (i : TurnInput) :
    rulingOf s i = none := by
  obtain ⟨p, hp, hout⟩ := h
  rw [rulingOf, selectMove, hp, orFault, bind_ok, if_pos hout]
  rfl

theorem rulingOf_prompts (h : Prompts s) (i : TurnInput) :
    rulingOf s i = none := by
  obtain ⟨hwait, p, hturn⟩ := h
  have hactive : ¬ s.world.isPlayerRevealed p = true := by
    simp [hturn.active]
  rw [rulingOf, selectMove, hturn.current, orFault, bind_ok, if_neg hactive,
    takeMove, if_pos hturn.name, if_pos hwait]
  rfl

/-- A step takes a turn and makes its ruling, or it makes none and leaves the
heap and the globals as they are. -/
theorem stepSession_rulings (h : stepSession y e = .ok y') :
    (rulings y e y' = [] ∧ y'.game.world = y.game.world) ∨
      ∃ i p m s₁ s₂, TakesTurn y.game i p m s₁ s₂ y'.game ∧
        rulings y e y' = [turnRuling s₁ i p m] := by
  cases stepSession_spec h with
  | turn i p m s₁ s₂ s _ _ hturn =>
      refine Or.inr ⟨i, p, m, s₁, s₂, hturn, ?_⟩
      rw [rulings, hturn.rulingOf]
      rfl
  | skip i _ _ hout =>
      refine Or.inl ⟨?_, rfl⟩
      rw [rulings, rulingOf_seatOut hout]
      rfl
  | prompt i _ _ hprompt =>
      refine Or.inl ⟨?_, rfl⟩
      rw [rulings, rulingOf_prompts hprompt]
      rfl
  | press q caller s _ _ _ hsubmits => exact Or.inl ⟨rfl, hsubmits.world⟩
  | start | finish | wake | deliver | endGame => exact Or.inl ⟨rfl, rfl⟩

/-- The board after a turn is the one its ruling gives. -/
theorem TakesTurn.settle (hin : InPlay created w user AIs s)
    (hmove : s.vc.didPlayerMove = true → Pressed s)
    (h : TakesTurn s i p m s₁ s₂ s') :
    Shows created s' [] (s.world.board.settle (turnRuling s₁ i p m)) := by
  obtain ⟨-, o, hmeets, hchallenges, hshows⟩ := h.spec hin hmove
  have hready := h.ready hin hmove
  cases hmeets with
  | none hfree =>
      rw [turnBoard, hready.caller] at hshows
      simpa [turnRuling, endingOf, hfree, Board.settle] using hshows
  | some s₃ o hopen hround =>
      have hslot : s₃.world.checkhaveCard p m.name =
          s.world.checkhaveCard p m.name :=
        ((anyChallenges_spec hround).1.checkhaveCard p m.name).trans
          (h.checkhaveCard hin)
      simp only [turnBoard, resolveBoard, hready.caller] at hshows
      simp only [turnRuling, endingOf, hopen, if_true, hround, hslot]
      by_cases hchallenge : o.name = .challenge
      · rw [if_pos hchallenge] at hshows ⊢
        cases hj : slotOf (s.world.checkhaveCard p m.name) with
        | some j => simpa [hj, Board.settle] using hshows
        | none =>
            rw [hj, (hchallenges o rfl hchallenge).target_eq hready] at hshows
            simpa [Board.settle] using hshows
      · rw [if_neg hchallenge] at hshows ⊢
        by_cases hallow : o.name = .allow
        · rw [if_pos hallow] at hshows ⊢
          exact hshows
        · rw [if_neg hallow] at hshows ⊢
          exact hshows

/-- A ruling names a challenger only if the challenge round ended with one. -/
theorem challengedBy_of_ruling {c : PlayerRef}
    (h : c ∈ (turnRuling s₁ i p m).challenger) :
    ChallengedBy (logMove s₁ m) m i.round c := by
  rw [turnRuling, endingOf] at h
  split at h
  next hopen =>
    split at h
    next s₃ o hround =>
      split at h
      next hname =>
        refine ⟨hopen, s₃, o, hround, hname, ?_⟩
        split at h
        next => exact Option.some.inj h
        next => exact Option.some.inj h
      next =>
        split at h
        next => cases h
        next => cases h
    next => cases h
  next => cases h

theorem TakesTurn.challenger_of_ruling (hin : InPlay created w user AIs s)
    (hmove : s.vc.didPlayerMove = true → Pressed s)
    (h : TakesTurn s i p m s₁ s₂ s') {c : PlayerRef}
    (hc : c ∈ (turnRuling s₁ i p m).challenger) :
    c ∈ s.world.players ∧ c ≠ p ∧ ¬ s.world.board.Out c := by
  obtain ⟨-, s₃, o, hround, hname, rfl⟩ := challengedBy_of_ruling hc
  exact h.challenger hin (h.ready hin hmove).caller
    ((anyChallenges_spec hround).2 hname)

theorem TakesTurn.seatedAt (hin : InPlay created w user AIs s)
    (hmove : s.vc.didPlayerMove = true → Pressed s)
    (h : TakesTurn s i p m s₁ s₂ s') :
    (turnRuling s₁ i p m).SeatedAt s.world.players.toFinset where
  caller := List.mem_toFinset.mpr h.seated
  target := List.mem_toFinset.mpr <|
    (h.quiet hin).evolves.table.players ▸ (h.ready hin hmove).move.target
  challenger _ hc :=
    List.mem_toFinset.mpr (h.challenger_of_ruling hin hmove hc).1

/-- A coup and an assassination are aimed at a player who is in the game. -/
theorem TakesTurn.target_active (hin : InPlay created w user AIs s)
    (hmove : s.vc.didPlayerMove = true → Pressed s)
    (h : TakesTurn s i p m s₁ s₂ s') (hhits : m.name.hits = true) :
    s.world.isPlayerRevealed m.target = false := by
  obtain ⟨hcurrent, -, hchosen⟩ := h.chosen
  cases hchosen with
  | user hname hpressed hm hstate =>
      obtain ⟨q, caller, -, hoffered, hq⟩ := hmove hpressed
      rw [hm, hq] at hhits ⊢
      cases q with
      | income | foreignAid | tax | exchange | steal => cases hhits
      | coup target | assassinate target =>
          have hactive : s.world.isPlayerRevealed target = false := by
            simpa using (List.mem_filter.mp hoffered.2).2
          exact hactive
  | ai w' hname hget hstate =>
      exact (getPlayerMove_target h.seated (hin.ai_isSome h.seated hname)
        hget).1 (MoveName.aimed_of_hits hhits)

/-- With distinct names every turn is one that the rules know. -/
theorem TakesTurn.fair (hin : InPlay created w user AIs s)
    (hnames : DistinctNames w) (hmove : s.vc.didPlayerMove = true → Pressed s)
    (h : TakesTurn s i p m s₁ s₂ s') :
    s.world.board.Fair (turnRuling s₁ i p m) where
  caller := (s.world.not_out_board p).mpr h.active
  challenger _ hc := (h.challenger_of_ruling hin hmove hc).2
  target hhits :=
    ⟨(h.legal hin hnames hmove).target_ne_of_hits hhits,
      (s.world.not_out_board m.target).mpr (h.target_active hin hmove hhits)⟩

end Turn

/-! ## The record of a run -/

/-- The record of a game so far: it replays to the cards and coins on the
table, and its moves are the ones that this game logged. -/
structure Recorded (log : List Move) (rs : List (Ruling PlayerRef))
    (y : Session) : Prop where
  face : ∀ q ∈ y.game.world.players,
    y.game.world.board.face q = (Board.opening.replay rs).face q
  coins : ∀ q ∈ y.game.world.players,
    (y.game.world.player q).coins = (Board.opening.replay rs).coins q
  moveLog : y.game.world.moveLog = log ++ rs.map Ruling.move
  seated : ∀ r ∈ rs, r.SeatedAt y.game.world.players.toFinset

section Run

variable {created : List CardRef} {w : World} {user : PlayerRef}
  {AIs : List PlayerRef} {y y' : Session} {e : Event}
  {log : List Move} {rs : List (Ruling PlayerRef)}

theorem Recorded.congr (h : Recorded log rs y)
    (hworld : y'.game.world = y.game.world) : Recorded log rs y' where
  face := hworld ▸ h.face
  coins := hworld ▸ h.coins
  moveLog := hworld ▸ h.moveLog
  seated := hworld ▸ h.seated

theorem Recorded.step (hrunning : Running created w user AIs y)
    (h : Recorded log rs y) (hstep : stepSession y e = .ok y') :
    Recorded log (rs ++ rulings y e y') y' := by
  have hin := hrunning.inPlay
  have hmove := hrunning.phase.pressed
  rcases stepSession_rulings hstep with
    ⟨hnone, hworld⟩ | ⟨i, p, m, s₁, s₂, hturn, hruling⟩
  · rw [hnone, List.append_nil]
    exact h.congr hworld
  · obtain ⟨hpasses, -⟩ := hturn.spec hin hmove
    have hplayers := hpasses.table.players
    have hsettle := hturn.settle hin hmove
    rw [hruling]
    constructor
    · intro q hq
      rw [hsettle.face hq, Board.replay_concat]
      exact Board.settle_face_congr _ (h.face q (hplayers ▸ hq))
    · intro q hq
      rw [hsettle.coins hq, Board.replay_concat, Board.settle_coins,
        Board.settle_coins, ← h.coins q (hplayers ▸ hq)]
      rfl
    · have hm : (turnRuling s₁ i p m).move = m := by
        rw [turnRuling, Ruling.move, ← (hturn.ready hin hmove).caller]
      rw [hpasses.moveLog, h.moveLog, List.map_append, List.map_singleton, hm,
        List.append_assoc]
    · intro r hr
      rw [hplayers]
      rcases List.mem_append.mp hr with hr | hr
      · exact h.seated r hr
      · obtain rfl := List.mem_singleton.mp hr
        exact hturn.seatedAt hin hmove

/-- A game opens with all hands face down. -/
theorem openSession_faceDown {base : CardRef} {shuffling dealing : List ℕ}
    (hlobby : Lobby w user AIs)
    (h : openSession w base shuffling dealing = .ok y) :
    ∀ q ∈ y.game.world.players, ∀ i,
      (y.game.world.held q i).revealed = false := by
  rw [openSession, bind_eq_ok] at h
  obtain ⟨s, hload, h⟩ := h
  cases h
  rw [viewDidLoad, bind_eq_ok] at hload
  obtain ⟨deck, hdeck, hload⟩ := hload
  obtain ⟨cards, rfl, hperm⟩ := makeDeck_spec hdeck
  obtain ⟨⟨w', deck'⟩, hdeal, hload⟩ := bind_eq_ok.mp hload
  obtain ⟨user', -, hload⟩ := bind_eq_ok.mp hload
  cases hload
  obtain ⟨cards', -, hdealt, htable, hcard, -⟩ :=
    assign2Cards_spec hlobby.nodup hdeal
  intro q hq i
  have hplayers : w'.players = w.players := htable.players
  have hmem : w'.slot q i ∈ w'.handsOf w.players := by
    rw [← hplayers]
    exact World.slot_mem_handCards hq i
  have hcreated := hperm.subset (hdealt.subset (List.mem_append_right _ hmem))
  have hdown := createCards_revealed w hcreated
  rwa [← hcard] at hdown

/-- The record of every game replays to its table. -/
theorem Recorded.of_run {base : CardRef} {shuffling dealing : List ℕ}
    {y₀ : Session} {es : List Event} (hlobby : Lobby w user AIs)
    (hopen : openSession w base shuffling dealing = .ok y₀)
    (hrun : run stepSession y₀ es = .ok y) :
    Recorded w.moveLog (record stepSession rulings y₀ es) y := by
  obtain ⟨hstart, hlog, hdealt, -⟩ := openSession_spec hlobby hopen
  have hboth : Running (createdCards base) (w.createCards base) user AIs y ∧
      Recorded w.moveLog (record stepSession rulings y₀ es) y := by
    refine record_invariant (I := fun _ rs y =>
      Running (createdCards base) (w.createCards base) user AIs y ∧
        Recorded w.moveLog rs y) ?_ hrun ⟨hstart, ?_⟩
    · rintro - rs y e y' ⟨hrunning, h⟩ hstep
      exact ⟨hrunning.step hstep, h.step hrunning hstep⟩
    · refine ⟨fun q hq => ?_, fun q hq => (hdealt q hq).2, ?_, by simp⟩
      · exact funext (openSession_faceDown hlobby hopen q hq)
      · simp [hlog]
  exact hboth.2

/-- The replay of the record is fair play. -/
theorem fairPlay_of_run {base : CardRef} {shuffling dealing : List ℕ}
    {y₀ : Session} {es : List Event} (hlobby : Lobby w user AIs)
    (hnames : DistinctNames w)
    (hopen : openSession w base shuffling dealing = .ok y₀)
    (hrun : run stepSession y₀ es = .ok y) :
    Board.opening.FairPlay (record stepSession rulings y₀ es) := by
  induction es using List.reverseRecOn generalizing y with
  | nil => exact trivial
  | append_singleton es e ih =>
      obtain ⟨y₁, hrun₁, hstep⟩ := run_concat_eq_ok.mp hrun
      have hrunning := Running.of_run hlobby hopen hrun₁
      have hrecorded := Recorded.of_run hlobby hopen hrun₁
      rw [record_concat hrun₁ hstep]
      rcases stepSession_rulings hstep with
        ⟨hnone, -⟩ | ⟨i, p, m, s₁, s₂, hturn, hruling⟩
      · rw [hnone, List.append_nil]
        exact ih hrun₁
      · rw [hruling, Board.fairPlay_concat]
        refine ⟨ih hrun₁, ?_⟩
        have hfair := hturn.fair hrunning.inPlay hnames hrunning.phase.pressed
        refine hfair.congr
          (hturn.seatedAt hrunning.inPlay hrunning.phase.pressed) ?_
        intro q hq
        exact (hrecorded.face q (List.mem_toFinset.mp hq)).symm

end Run

/-- Every game is a game by the rules, played out over its record: the turns
are ones that the rules know, replaying them from the opening board gives the
cards and coins on the table, and they are the moves that were logged. -/
theorem session_replays {w : World} {user : PlayerRef} {AIs : List PlayerRef}
    {base : CardRef} {shuffling dealing : List ℕ} {y₀ y : Session}
    {es : List Event} (hlobby : Lobby w user AIs) (hnames : DistinctNames w)
    (hopen : openSession w base shuffling dealing = .ok y₀)
    (hrun : run stepSession y₀ es = .ok y) :
    Board.opening.FairPlay (record stepSession rulings y₀ es) ∧
      (∀ q ∈ y.game.world.players,
        y.game.world.board.face q =
            (Board.opening.replay (record stepSession rulings y₀ es)).face q ∧
          y.game.world.board.coins q =
            (Board.opening.replay (record stepSession rulings y₀ es)).coins
              q) ∧
      y.game.world.moveLog =
        w.moveLog ++ (record stepSession rulings y₀ es).map Ruling.move := by
  have hrecorded := Recorded.of_run hlobby hopen hrun
  exact ⟨fairPlay_of_run hlobby hnames hopen hrun,
    fun q hq => ⟨hrecorded.face q hq, hrecorded.coins q hq⟩,
    hrecorded.moveLog⟩

/-- The user is caught twice and ends up with both cards turned up, which are
the cards that the replay turns up. -/
theorem session_replays_caughtTwice :
    ∃ y₀ y, openSession (lobbyOf "user" ["Charlie Puth"] []) 0 (List.range 15)
        [4, 8] = .ok y₀ ∧
      run stepSession y₀ caughtTwice = .ok y ∧
      y.game.world.board.face 0 .second = true ∧
      Board.opening.FairPlay (record stepSession rulings y₀ caughtTwice) ∧
      y.game.world.board.face 0 =
        (Board.opening.replay (record stepSession rulings y₀ caughtTwice)).face
          0 := by
  have hlast : lastStep stepSession
      (openSession (lobbyOf "user" ["Charlie Puth"] []) 0 (List.range 15)
        [4, 8]) caughtTwice .endGame
      (fun y _ => decide (y.game.world.board.face 0 .second = true ∧
        0 ∈ y.game.world.players)) = true := by
    decide +kernel
  obtain ⟨y₀, y, -, hopen, hrun, -, hP⟩ := exists_of_lastStep hlast
  obtain ⟨hup, hseated⟩ := of_decide_eq_true hP
  obtain ⟨hfair, htable, -⟩ := session_replays
    (lobbyOf_one "user" "Charlie Puth")
    (lobbyOf_distinctNames [] (by decide)) hopen hrun
  exact ⟨y₀, y, hopen, hrun, hup, hfair, (htable 0 hseated).1⟩

/-! ## What follows from the replay -/

section Consequences

variable {w : World} {user : PlayerRef} {AIs : List PlayerRef}
  {base : CardRef} {shuffling dealing : List ℕ} {y₀ y y' : Session}
  {es es' : List Event} {s s₁ s₂ s' : State} {i : TurnInput} {p : PlayerRef}
  {m : Move} {created : List CardRef} {e : Event}

/-- A ruling leaves a player alone who is out. -/
structure Ruling.Spares (r : Ruling PlayerRef) (p : PlayerRef) : Prop where
  caller : r.caller ≠ p
  challenger : ∀ c ∈ r.challenger, c ≠ p
  target : r.name.hits = true → r.target ≠ p

theorem Board.Fair.spares {b : Board PlayerRef} {r : Ruling PlayerRef}
    (h : b.Fair r) (hout : b.Out p) : r.Spares p where
  caller := by
    rintro rfl
    exact h.caller hout
  challenger := by
    rintro c hc rfl
    exact (h.challenger c hc).2 hout
  target := by
    rintro hhits rfl
    exact (h.target hhits).2 hout

/-- One step keeps a player out and spares him. -/
theorem Running.out_step (hrunning : Running created w user AIs y)
    (hnames : DistinctNames w) (hp : p ∈ y.game.world.players)
    (hout : y.game.world.board.Out p) (hstep : stepSession y e = .ok y') :
    y'.game.world.board.Out p ∧ ∀ r ∈ rulings y e y', r.Spares p := by
  have hin := hrunning.inPlay
  have hmove := hrunning.phase.pressed
  rcases stepSession_rulings hstep with
    ⟨hnone, hworld⟩ | ⟨i, q, m, s₁, s₂, hturn, hruling⟩
  · rw [hnone, hworld]
    exact ⟨hout, by simp⟩
  · have hfair := hturn.fair hin hnames hmove
    have hp' : p ∈ y'.game.world.players :=
      (hturn.spec hin hmove).1.table.players ▸ hp
    rw [hruling]
    refine ⟨?_, ?_⟩
    · rw [Board.Out, (hturn.settle hin hmove).influence hp']
      exact hfair.out hout
    · intro r hr
      obtain rfl := List.mem_singleton.mp hr
      exact hfair.spares hout

end Consequences

/-- Elimination is final, also where a challenge is answered with a lost card:
from then on the player neither moves nor challenges, no coup and no
assassination is aimed at him, and he never comes back. -/
theorem elimination_final {w : World} {user : PlayerRef}
    {AIs : List PlayerRef} {base : CardRef} {shuffling dealing : List ℕ}
    {y₀ y y' : Session} {es es' : List Event} {p : PlayerRef}
    (hlobby : Lobby w user AIs) (hnames : DistinctNames w)
    (hopen : openSession w base shuffling dealing = .ok y₀)
    (hrun : run stepSession y₀ es = .ok y)
    (hrun' : run stepSession y es' = .ok y')
    (hp : p ∈ y.game.world.players)
    (hout : y.game.world.isPlayerRevealed p = true) :
    y'.game.world.isPlayerRevealed p = true ∧
      ∀ r ∈ record stepSession rulings y es', r.Spares p := by
  have hrunning := Running.of_run hlobby hopen hrun
  rw [← World.out_board] at hout ⊢
  have hall : (Running (createdCards base) (w.createCards base) user AIs y' ∧
      p ∈ y'.game.world.players ∧ y'.game.world.board.Out p) ∧
      ∀ r ∈ record stepSession rulings y es', r.Spares p := by
    refine record_invariant (I := fun _ rs y =>
      (Running (createdCards base) (w.createCards base) user AIs y ∧
        p ∈ y.game.world.players ∧ y.game.world.board.Out p) ∧
        ∀ r ∈ rs, Ruling.Spares r p) ?_ hrun' ⟨⟨hrunning, hp, hout⟩, by simp⟩
    rintro - rs y e y' ⟨⟨hrunning, hp, hout⟩, hrs⟩ hstep
    obtain ⟨hout', hspares⟩ := hrunning.out_step hnames hp hout hstep
    have hnext := hrunning.step hstep
    refine ⟨⟨hnext, ?_, hout'⟩, ?_⟩
    · rw [hnext.inPlay.players, ← hrunning.inPlay.players]
      exact hp
    · intro r hr
      rcases List.mem_append.mp hr with hr | hr
      · exact hrs r hr
      · exact hspares r hr
  exact ⟨hall.1.2.2, hall.2⟩

/-- What happens after Charlie Puth has been eliminated. -/
def afterTax : List Event :=
  scripted .allow .greatest 60 [0] [] :: userPresses .income ++
    [unchallenged, unchallenged]

theorem elimination_final_afterTax :
    ∃ y₀ y y', openSession
        (lobbyOf "user" ["Charlie Puth", "Ed Sheeran"] []) 0 (List.range 15)
        [1, 0, 0, 0, 3] = .ok y₀ ∧
      run stepSession y₀ caughtTax = .ok y ∧
      run stepSession y afterTax = .ok y' ∧
      y'.game.world.moveLog.length = 4 ∧
      y'.game.world.isPlayerRevealed 1 = true := by
  have hlast : lastStep stepSession
      (openSession (lobbyOf "user" ["Charlie Puth", "Ed Sheeran"] []) 0
        (List.range 15) [1, 0, 0, 0, 3]) caughtTax .endGame
      (fun y _ => decide (y.game.world.isPlayerRevealed 1 = true ∧
        1 ∈ y.game.world.players ∧
        (run stepSession y afterTax).toOption.map
          (fun y => y.game.world.moveLog.length) = some 4)) = true := by
    decide +kernel
  obtain ⟨y₀, y, -, hopen, hrun, -, hP⟩ := exists_of_lastStep hlast
  obtain ⟨hout, hseated, hafter⟩ := of_decide_eq_true hP
  obtain ⟨y', hrun', hlength⟩ := Option.map_eq_some_iff.mp hafter
  rw [toOption_eq_some] at hrun'
  exact ⟨y₀, y, y', hopen, hrun, hrun', hlength, (elimination_final
    (lobbyOf_two "user" "Charlie Puth" "Ed Sheeran")
    (lobbyOf_distinctNames [] (by decide)) hopen hrun hrun' hseated hout).1⟩

/-! ## How many fights a game can have -/

/-- Somebody is in the game, and while the loop runs the user and some AI
are. -/
structure Alive (user : PlayerRef) (AIs : List PlayerRef) (s : State) :
    Prop where
  survivor : ∃ p ∈ s.world.players, s.world.isPlayerRevealed p = false
  undecided : s.vc.gameOn = true → Undecided s.world user AIs

section Alive

variable {created : List CardRef} {w : World} {user : PlayerRef}
  {AIs : List PlayerRef} {y y' : Session} {e : Event}

theorem Alive.step (hrunning : Running created w user AIs y)
    (hnames : DistinctNames w) (h : Alive user AIs y.game)
    (hstep : stepSession y e = .ok y') : Alive user AIs y'.game := by
  have hin := hrunning.inPlay
  have hmove := hrunning.phase.pressed
  cases stepSession_spec hstep with
  | turn i p m s₁ s₂ s _ hon hturn =>
      have hplayers := (hturn.spec hin hmove).1.table.players
      refine ⟨(hturn.outcome hin hmove).survivor hin (h.undecided hon)
        (hturn.legal hin hnames hmove) hturn.seated hturn.active hplayers, ?_⟩
      intro hon'
      have hover := gameOver_iff (hturn.inPlay hin hmove)
      rcases hturn.verdict hin hmove with ⟨-, hoff, -⟩ | ⟨hno, -⟩
      · rw [hoff] at hon'
        cases hon'
      · exact not_not.mp (mt hover.mpr hno)
  | press q caller s _ _ _ hsubmits =>
      have hvc := hsubmits.vc
      refine ⟨hsubmits.world ▸ h.survivor, fun hon => ?_⟩
      rw [hvc] at hon
      rw [hsubmits.world]
      exact h.undecided hon
  | endGame => exact ⟨h.survivor, fun hon => by cases hon⟩
  | skip | start | prompt | finish | wake | deliver =>
      exact ⟨h.survivor, h.undecided⟩

theorem Alive.of_run {base : CardRef} {shuffling dealing : List ℕ}
    {y₀ : Session} {es : List Event} (hlobby : Lobby w user AIs)
    (hnames : DistinctNames w)
    (hopen : openSession w base shuffling dealing = .ok y₀)
    (hrun : run stepSession y₀ es = .ok y) : Alive user AIs y.game := by
  obtain ⟨hstart, -, hdealt, -⟩ := openSession_spec hlobby hopen
  have huser := (hdealt user hstart.inPlay.user_seated).1
  obtain ⟨q, hq⟩ := List.exists_mem_of_ne_nil AIs hlobby.opponents
  have hqactive := (hdealt q (hstart.inPlay.mem_AIs hq).1).1
  have hboth : Running (createdCards base) (w.createCards base) user AIs y ∧
      Alive user AIs y.game := by
    refine run_invariant (I := fun y =>
      Running (createdCards base) (w.createCards base) user AIs y ∧
        Alive user AIs y.game) ?_ hrun ⟨hstart, ?_⟩
    · rintro y e y' ⟨hrunning, h⟩ hstep
      exact ⟨hrunning.step hstep, h.step hrunning hnames hstep⟩
    · exact ⟨⟨user, hstart.inPlay.user_seated, huser⟩,
        fun _ => ⟨huser, q, hq, hqactive⟩⟩
  exact hboth.2

end Alive

/-- A game of `n` players has at most `2 n - 1` turns that cost somebody an
influence, challenges and hits together, and one more for each challenge that
was answered with a lost card. -/
theorem fights_bounded {w : World} {user : PlayerRef} {AIs : List PlayerRef}
    {base : CardRef} {shuffling dealing : List ℕ} {y₀ y : Session}
    {es : List Event} (hlobby : Lobby w user AIs) (hnames : DistinctNames w)
    (hopen : openSession w base shuffling dealing = .ok y₀)
    (hrun : run stepSession y₀ es = .ok y) :
    Board.fights (record stepSession rulings y₀ es) + 1 ≤
      2 * y.game.world.players.length +
        Board.opening.countStale (record stepSession rulings y₀ es) := by
  have hin := (Running.of_run hlobby hopen hrun).inPlay
  have hrecorded := Recorded.of_run hlobby hopen hrun
  have hfair := fairPlay_of_run hlobby hnames hopen hrun
  obtain ⟨p, hp, hactive⟩ := (Alive.of_run hlobby hnames hopen hrun).survivor
  have hle := hfair.fights_le hrecorded.seated
  have hstart : (Board.opening : Board PlayerRef).totalInfluence
      y.game.world.players.toFinset = 2 * y.game.world.players.length := by
    have htwo : ∀ q ∈ y.game.world.players.toFinset,
        (Board.opening : Board PlayerRef).influence q = 2 := fun _ _ => rfl
    rw [Board.totalInfluence, Finset.sum_const_nat htwo,
      List.toFinset_card_of_nodup hin.nodup, mul_comm]
  have hend : 1 ≤ (Board.opening.replay
      (record stepSession rulings y₀ es)).totalInfluence
        y.game.world.players.toFinset := by
    have hsame : (Board.opening.replay
        (record stepSession rulings y₀ es)).influence p =
          y.game.world.board.influence p :=
      Board.influence_congr p (congrFun (hrecorded.face p hp).symm)
    have hpos : 0 < y.game.world.board.influence p :=
      Board.influence_pos ((World.not_out_board _ p).mpr hactive)
    rw [← hsame] at hpos
    exact le_trans hpos (Finset.single_le_sum
      (f := (Board.opening.replay
        (record stepSession rulings y₀ es)).influence)
      (fun _ _ => Nat.zero_le _) (List.mem_toFinset.mpr hp))
  omega

/-- A user who is caught twice has lost two of the three fights that a game of
two players can have. -/
theorem fights_bounded_caughtTwice :
    ∃ y₀ y, openSession (lobbyOf "user" ["Charlie Puth"] []) 0 (List.range 15)
        [4, 8] = .ok y₀ ∧
      run stepSession y₀ caughtTwice = .ok y ∧
      Board.fights (record stepSession rulings y₀ caughtTwice) = 2 ∧
      Board.fights (record stepSession rulings y₀ caughtTwice) + 1 ≤
        2 * y.game.world.players.length +
          Board.opening.countStale
            (record stepSession rulings y₀ caughtTwice) := by
  have hlast : lastStep stepSession
      (openSession (lobbyOf "user" ["Charlie Puth"] []) 0 (List.range 15)
        [4, 8]) [] .start
      (fun y₀ _ => decide (
        (run stepSession y₀ caughtTwice).toOption.isSome ∧
        Board.fights (record stepSession rulings y₀ caughtTwice) = 2)) =
          true := by
    decide +kernel
  obtain ⟨y₀, y₁, -, hopen, hnil, -, hP⟩ := exists_of_lastStep hlast
  cases hnil
  obtain ⟨hsome, htwo⟩ := of_decide_eq_true hP
  obtain ⟨y, hrun⟩ := Option.isSome_iff_exists.mp hsome
  rw [toOption_eq_some] at hrun
  exact ⟨y₀, y, hopen, hrun, htwo, fights_bounded
    (lobbyOf_one "user" "Charlie Puth")
    (lobbyOf_distinctNames [] (by decide)) hopen hrun⟩

end Coup
