import Coup.Game.Outcome

/-!
# Influence over a run

`checkhaveCard` names the first position whenever the card there has the
ability, also when that card is already face up and the claim is only backed
by a second copy.  A challenge won like that swaps the lost card for a hidden
one.  In every other step no player's influence grows.
-/

namespace Coup

open Coup.Support

/-! ## The card that answers a challenge -/

/-- The first card was lost, and the claim is backed by a second card with the
same ability. -/
structure ShownCopy (w : World) (p : PlayerRef) (name : MoveName) : Prop where
  lost : (w.held p .first).revealed = true
  can : (w.held p .first).can name = true
  hidden : (w.held p .second).revealed = false
  copy : (w.held p .second).can name = true

theorem claim_revealed_iff {w : World} {p : PlayerRef} {name : MoveName}
    {j : Slot} (h : slotOf (w.checkhaveCard p name) = some j) :
    (w.held p j).revealed = true ↔ ShownCopy w p name := by
  unfold World.checkhaveCard at h
  split at h
  next hhas =>
    simp only [Bool.or_eq_true, Bool.and_eq_true, Bool.not_eq_true'] at hhas
    split at h
    next hfirst =>
      obtain rfl : Slot.first = j := by simpa [slotOf] using h
      constructor
      · intro hlost
        rcases hhas with ⟨hhidden, -⟩ | ⟨hhidden, hcopy⟩
        · rw [hlost] at hhidden
          cases hhidden
        · exact ⟨hlost, hfirst, hhidden, hcopy⟩
      · exact fun hcopy => hcopy.lost
    next hfirst =>
      obtain rfl : Slot.second = j := by simpa [slotOf] using h
      constructor
      · intro hlost
        rcases hhas with ⟨-, hcan⟩ | ⟨hhidden, -⟩
        · exact absurd hcan hfirst
        · rw [hlost] at hhidden
          cases hhidden
      · exact fun hcopy => absurd hcopy.can hfirst
  next => simp [slotOf] at h

/-- A claim backed by a second copy is answered with the lost card. -/
theorem ShownCopy.holds {w : World} {p : PlayerRef} {name : MoveName}
    (h : ShownCopy w p name) : Holds w p name :=
  ⟨.second, h.hidden, h.copy⟩

/-! ## One step -/

/-- In this step somebody challenges a claim that is backed only by a second
copy of a card its caller has already lost. -/
def Regains (y : Session) (e : Event) : Prop :=
  ∃ i p m s₁ c, e = .iterate i ∧
    selectMove y.game i.ai = .ok (s₁, p, .move m) ∧
    ChallengedBy (logMove s₁ m) m i.round c ∧
    ShownCopy y.game.world p m.name

/-- The caller wins a challenge, or exchanges cards. -/
def KeepsHand (s s₁ : State) (i : TurnInput) (p : PlayerRef) (m : Move) :
    Prop :=
  ((∃ c, ChallengedBy (logMove s₁ m) m i.round c) ∧ Holds s.world p m.name) ∨
    (m.name = .exchange ∧ Accepted (logMove s₁ m) m i.round)

/-- In this step nobody gains influence, and winning a challenge and exchanging
leave the influence of the caller as it is. -/
structure KeepsInfluence (y : Session) (e : Event) (y' : Session) : Prop where
  noGain : ∀ q ∈ y.game.world.players,
    y'.game.world.board.influence q ≤ y.game.world.board.influence q
  caller : ∀ i p m s₁ s₂, e = .iterate i →
    TakesTurn y.game i p m s₁ s₂ y'.game → KeepsHand y.game s₁ i p m →
    y'.game.world.board.influence p = y.game.world.board.influence p

section Step

variable {created : List CardRef} {w : World} {user : PlayerRef}
  {AIs : List PlayerRef} {y y' : Session} {e : Event}
  {s s₁ s₂ s' : State} {i : TurnInput} {p q c : PlayerRef} {m : Move}
  {j : Slot}

/-- A turn in which the claim is not backed by a lost card only costs
influence. -/
theorem Outcome.influence_le (hlegal : Legal s.world p m)
    (hplayers : s'.world.players = s.world.players)
    (h : Outcome created s s₁ i p m s')
    (hno : ∀ c, ChallengedBy (logMove s₁ m) m i.round c →
      ¬ ShownCopy s.world p m.name) (hq : q ∈ s.world.players) :
    s'.world.board.influence q ≤ s.world.board.influence q := by
  have hq' : q ∈ s'.world.players := hplayers ▸ hq
  cases h with
  | accepted _ hshows =>
      rw [hshows.influence hq', Board.act_influence]
      exact Nat.sub_le _ _
  | won c j hby _ hne _ hslot hshows =>
      rw [hshows.influence hq']
      by_cases hqp : q = p
      · subst hqp
        rw [Board.winChallenge_influence_self _ hne
          fun hhits => hlegal.target_ne_of_hits hhits]
        have hdown : ¬ s.world.board.face q j = true := fun hup =>
          hno c hby ((claim_revealed_iff hslot).mp hup)
        simp [hdown]
      · rw [Board.winChallenge_influence_of_ne _ hqp]
        omega
  | lost _ _ _ hshows =>
      rw [hshows.influence hq', Board.influence_lose]
      exact Nat.sub_le _ _
  | dropped _ hshows => exact (hshows.influence hq').le

/-- Winning a challenge with a card that was not lost, and exchanging, leave
the influence of the caller as it is. -/
theorem Outcome.influence_caller (hlegal : Legal s.world p m)
    (hp : p ∈ s'.world.players) (h : Outcome created s s₁ i p m s')
    (hno : ∀ c, ChallengedBy (logMove s₁ m) m i.round c →
      ¬ ShownCopy s.world p m.name) (hkeeps : KeepsHand s s₁ i p m) :
    s'.world.board.influence p = s.world.board.influence p := by
  cases h with
  | accepted haccepted hshows =>
      rcases hkeeps with ⟨⟨c, hby⟩, -⟩ | ⟨hname, -⟩
      · exact absurd haccepted hby.not_accepted
      · rw [hshows.influence hp, Board.act_influence, hname]
        rfl
  | won c j hby _ hne _ hslot hshows =>
      have hdown : ¬ s.world.board.face p j = true := fun hup =>
        hno c hby ((claim_revealed_iff hslot).mp hup)
      rw [hshows.influence hp, Board.winChallenge_influence_self _ hne
        fun hhits => hlegal.target_ne_of_hits hhits, if_neg hdown]
      rfl
  | lost c hby hnone _ =>
      rcases hkeeps with ⟨-, hholds⟩ | ⟨-, haccepted⟩
      · exact absurd hholds hnone
      · exact absurd haccepted hby.not_accepted
  | dropped _ hshows => exact hshows.influence hp

/-- A claim that is backed only by a second copy gains its caller the lost
card back when it is challenged. -/
theorem Outcome.influence_gain (hlegal : Legal s.world p m)
    (hp : p ∈ s'.world.players) (h : Outcome created s s₁ i p m s')
    (hby : ChallengedBy (logMove s₁ m) m i.round c)
    (hshown : ShownCopy s.world p m.name) :
    s'.world.board.influence p = s.world.board.influence p + 1 := by
  cases h with
  | accepted haccepted _ => exact absurd haccepted hby.not_accepted
  | won c' j _ _ hne _ hslot hshows =>
      have hup : s.world.board.face p j = true :=
        (claim_revealed_iff hslot).mpr hshown
      rw [hshows.influence hp, Board.winChallenge_influence_self _ hne
        fun hhits => hlegal.target_ne_of_hits hhits, if_pos hup]
  | lost _ _ hnone _ => exact absurd hshown.holds hnone
  | dropped hdropped _ => exact absurd hdropped hby.not_unanswered

/-- One step keeps every player's influence exactly if it does not win a
challenge with a card that was already lost. -/
theorem keepsInfluence_iff (hrunning : Running created w user AIs y)
    (hnames : DistinctNames w) (hstep : stepSession y e = .ok y') :
    KeepsInfluence y e y' ↔ ¬ Regains y e := by
  have hin := hrunning.inPlay
  have hpressed := hrunning.phase.pressed
  constructor
  · rintro hkeeps ⟨i, p, m, s₁, c, rfl, hselect, hby, hshown⟩
    obtain ⟨-, -, exit, hiterate⟩ := stepSession_iterate hstep
    rw [iterate, hselect, bind_ok] at hiterate
    simp only [bind_eq_ok] at hiterate
    obtain ⟨s₂, hplayed, s₃, hended, hiterate⟩ := hiterate
    cases hiterate
    have hturn : TakesTurn y.game i p m s₁ s₂ y'.game :=
      ⟨hselect, hplayed, hended⟩
    have hlegal := hturn.legal hin hnames hpressed
    obtain ⟨hpasses, -⟩ := hturn.spec hin hpressed
    have hp : p ∈ y'.game.world.players :=
      hpasses.table.players ▸ hturn.seated
    have hgain := (hturn.outcome hin hpressed).influence_gain hlegal hp hby
      hshown
    have hle := hkeeps.noGain p hturn.seated
    omega
  · intro hno
    rcases stepSession_cases hstep with
      hworld | ⟨i, p, m, s₁, s₂, rfl, hturn⟩
    · refine ⟨fun q _ => ?_, fun i p m s₁ s₂ _ _ _ => ?_⟩ <;> rw [hworld]
    · have hlegal := hturn.legal hin hnames hpressed
      obtain ⟨hpasses, -⟩ := hturn.spec hin hpressed
      have houtcome := hturn.outcome hin hpressed
      have hfresh : ∀ c, ChallengedBy (logMove s₁ m) m i.round c →
          ¬ ShownCopy y.game.world p m.name := fun c hby hshown =>
        hno ⟨i, p, m, s₁, c, rfl, hturn.selected, hby, hshown⟩
      constructor
      · intro q hq
        exact houtcome.influence_le hlegal hpasses.table.players hfresh hq
      · rintro i' p' m' s₁' s₂' hi hturn' hkeeps
        cases hi
        have hsame := hturn.selected.symm.trans hturn'.selected
        cases hsame
        have hp : p ∈ y'.game.world.players :=
          hpasses.table.players ▸ hturn.seated
        exact houtcome.influence_caller hlegal hp hfresh hkeeps

end Step

/-- In a game with distinct names, lost influence comes back in no step of a
run exactly if no step wins a challenge with a card that was already lost. -/
theorem keepsInfluence_run_iff {w : World} {user : PlayerRef}
    {AIs : List PlayerRef} {base : CardRef} {shuffling dealing : List ℕ}
    {y₀ : Session} (es : List Event) (hlobby : Lobby w user AIs)
    (hnames : DistinctNames w)
    (hopen : openSession w base shuffling dealing = .ok y₀) :
    EachStep stepSession KeepsInfluence y₀ es ↔
      EachStep stepSession (fun y e _ => ¬ Regains y e) y₀ es := by
  have hstep : ∀ pre e m m', run stepSession y₀ pre = .ok m →
      stepSession m e = .ok m' → (KeepsInfluence m e m' ↔ ¬ Regains m e) := by
    intro pre e m m' hpre hstep
    exact keepsInfluence_iff (.of_run hlobby hopen hpre) hnames hstep
  constructor
  · intro h
    exact h.imp fun pre e m m' _ hpre hs => (hstep pre e m m' hpre hs).mp
  · intro h
    exact h.imp fun pre e m m' _ hpre hs => (hstep pre e m m' hpre hs).mpr

/-- The user is dealt two Dukes, claims an exchange and loses the first Duke to
a challenge; the AI takes income, and the user claims tax. -/
def twoDukes : List Event :=
  [.start, scripted .allow .least 1 [] [], .deliver, .wake, .press .exchange,
    .start, scripted .allow .least 1 [] [], scripted .allow .least 1 [] [],
    scripted .allow .least 1 [] [], .deliver, .press .tax, .wake, .start]

theorem keepsInfluence_run_iff_twoDukes :
    ∃ y₀, openSession (lobbyOf "user" ["Charlie Puth"] []) 0 (List.range 15)
        [4, 8] = .ok y₀ ∧
      (EachStep stepSession KeepsInfluence y₀ twoDukes ↔
        EachStep stepSession (fun y e _ => ¬ Regains y e) y₀ twoDukes) := by
  have hlast : lastStep stepSession
      (openSession (lobbyOf "user" ["Charlie Puth"] []) 0 (List.range 15)
        [4, 8]) [] .start (fun _ _ => true) = true := by decide +kernel
  obtain ⟨y₀, -, -, hopen, -⟩ := exists_of_lastStep hlast
  exact ⟨y₀, hopen, keepsInfluence_run_iff twoDukes
    (lobbyOf_one "user" "Charlie Puth")
    (lobbyOf_distinctNames [] (by decide)) hopen⟩

/-- The challenged tax gives the user back the Duke that was lost. -/
theorem influence_comes_back :
    ∃ user AIs y₀ y y', Lobby (lobbyOf "user" ["Charlie Puth"] []) user AIs ∧
      DistinctNames (lobbyOf "user" ["Charlie Puth"] []) ∧
      openSession (lobbyOf "user" ["Charlie Puth"] []) 0 (List.range 15) [4, 8]
        = .ok y₀ ∧
      run stepSession y₀ twoDukes = .ok y ∧
      stepSession y (scripted .allow .least 1 [] (List.range 11)) = .ok y' ∧
      (y.thread = .looping ∧ y.game.vc.gameOn = true) ∧
      (y'.thread = .looping ∧ y'.game.vc.gameOn = true) ∧
      user ∈ y.game.world.players ∧
      y.game.world.board.influence user = 1 ∧
      y'.game.world.board.influence user = 2 := by
  have hlobby := lobbyOf_one "user" "Charlie Puth"
  have hlast : lastStep stepSession
      (openSession (lobbyOf "user" ["Charlie Puth"] []) 0 (List.range 15)
        [4, 8]) twoDukes (scripted .allow .least 1 [] (List.range 11))
      (fun y y' => decide ((y.thread = .looping ∧ y.game.vc.gameOn = true) ∧
        (y'.thread = .looping ∧ y'.game.vc.gameOn = true) ∧
        0 ∈ y.game.world.players ∧ y.game.world.board.influence 0 = 1 ∧
        y'.game.world.board.influence 0 = 2)) = true := by
    decide +kernel
  obtain ⟨y₀, y, y', hopen, hrun, hstep, hP⟩ := exists_of_lastStep hlast
  exact ⟨0, _, y₀, y, y', hlobby, lobbyOf_distinctNames [] (by decide), hopen,
    hrun, hstep, of_decide_eq_true hP⟩

end Coup
