import Coup.Threads.Scope

/-!
# What the game thread logs

`runGame` appends a move to the global `moveLog` after announcing it.  Nothing
else that a game does touches the log.
-/

namespace Coup

open Coup.Support

/-! ## What leaves the log alone -/

/-- The computation leaves this log. -/
def LeavesLog (log : List Move) (c : Except Fault State) : Prop :=
  Ensures (fun s => s.world.moveLog = log) c

section LeavesLog

variable (s : State) (p : PlayerRef)

theorem applyExchange_log (c : CardRef) (n : ℕ) :
    LeavesLog s.world.moveLog (applyExchange s c n) := by
  apply Ensures.bind
  intro two _
  split <;> exact ensures_ok rfl

theorem answerDialog_log (d : Dialog) (a : ExchangeAnswer) :
    LeavesLog s.world.moveLog (answerDialog s d a) := by
  rcases answerDialog_cases s d a with heq | ⟨c, n, -, heq⟩
  · rw [heq]
    exact ensures_ok rfl
  · rw [heq]
    exact applyExchange_log s c n

theorem offerExchange_log (i : Slot) (n : ℕ) (a : ExchangeAnswer) :
    LeavesLog s.world.moveLog (offerExchange s i n a) := by
  apply Ensures.ite
  · intro _
    apply Ensures.bind
    intro two _
    exact answerDialog_log s _ a
  · exact fun _ => ensures_ok rfl

theorem swapFirst_log : LeavesLog s.world.moveLog (swapFirst s p) := by
  apply Ensures.ite
  · intro _
    apply Ensures.bind
    intro two _
    exact ensures_ok rfl
  · exact fun _ => ensures_ok rfl

theorem swapSecond_log : LeavesLog s.world.moveLog (swapSecond s p) := by
  apply Ensures.ite
  · intro _
    apply Ensures.bind
    intro two _
    exact ensures_ok rfl
  · exact fun _ => ensures_ok rfl

theorem exchangeCards_log (i : ExchangeInput) :
    LeavesLog s.world.moveLog (exchangeCards s p i) := by
  apply Ensures.ite
  · intro _
    apply Ensures.bind
    intro s₁ hs₁
    rw [← offerExchange_log s .first 0 i.answer1 s₁ hs₁]
    exact offerExchange_log s₁ .second 2 i.answer2
  · intro _
    apply Ensures.bind
    intro s₁ hs₁
    rw [← swapFirst_log s p s₁ hs₁]
    exact swapSecond_log s₁ p

theorem exchange_log (i : ExchangeInput) :
    LeavesLog s.world.moveLog (exchange s p i) := by
  apply Ensures.bind
  rintro ⟨two, cardDeck⟩ _
  apply Ensures.bind
  intro s₁ hs₁
  apply Ensures.bind
  intro two' _
  apply Ensures.bind
  intro cardDeck' _
  exact ensures_ok (exchangeCards_log { s with
    vc.cardDeck := cardDeck, vc.twoCards := some two } p i s₁ hs₁)

theorem actOnMove_log (m : Move) (i : ExchangeInput) :
    LeavesLog s.world.moveLog (actOnMove s m i) := by
  unfold actOnMove
  split
  case h_3 | h_5 =>
    apply Ensures.bind
    intro w hw
    apply ensures_ok
    show w.moveLog = _
    rw [World.revealCard_moveLog hw]
    rfl
  case h_4 => exact exchange_log s m.caller i
  all_goals exact ensures_ok rfl

theorem replaceClaim_log (theCard : ℤ) (newCard : CardRef) (draws : List ℕ) :
    LeavesLog s.world.moveLog (replaceClaim s p theCard newCard draws) := by
  have hreplace : (replaceCard s.world p theCard newCard).1.moveLog =
      s.world.moveLog := by
    rw [replaceCard]
    split <;> rfl
  apply Ensures.bind
  rintro ⟨w, cardDeck⟩ hw
  obtain ⟨cardDeck', -, hw⟩ := bind_eq_ok.mp hw
  cases hw
  exact ensures_ok hreplace

theorem isGameOver_log : LeavesLog s.world.moveLog (isGameOver s) := by
  intro s' hjudge
  rcases isGameOver_cases hjudge with ⟨-, player0, -, rfl⟩ | ⟨-, rfl⟩
  · rfl
  · rfl

theorem getPlayerMove_log (w : World) (i : AIInput) :
    Ensures (fun r => r.2.moveLog = w.moveLog) (getPlayerMove w p i) := by
  unfold getPlayerMove
  split
  · exact ensures_ok rfl
  · apply Ensures.bind
    intro name _
    apply Ensures.bind
    intro m _
    exact ensures_ok rfl

theorem getChallengeOrAllow_log (w : World) (target : PlayerRef)
    (rand : UnitDraw) :
    Ensures (fun r => r.2.moveLog = w.moveLog)
      (getChallengeOrAllow w p target rand) := by
  rintro ⟨o, w'⟩ h
  obtain rfl | ⟨-, ai, rfl⟩ := (getChallengeOrAllow_spec h).2
  · rfl
  · rfl

theorem assign2Cards_log (cardDeck : CardDeck) (seats : List PlayerRef)
    (w : World) (draws : List ℕ) :
    Ensures (fun r => r.1.moveLog = w.moveLog)
      (assign2Cards w cardDeck seats draws) := by
  induction seats generalizing w cardDeck draws with
  | nil => exact ensures_ok rfl
  | cons q seats ih =>
      apply Ensures.bind
      intro first _
      apply Ensures.bind
      intro second _
      exact ih second.2 ((w.setSlot q .first first.1).setSlot q .second
        second.1) (draws.drop 2)

/-- `viewDidLoad` does not touch the log. -/
theorem openLoop_log (w : World) (base : CardRef)
    (shuffling dealing : List ℕ) :
    Ensures (fun y => y.game.world.moveLog = w.moveLog)
      (openLoop w base shuffling dealing) := by
  apply Ensures.bind
  intro s hs
  apply ensures_ok
  obtain ⟨cardDeck, -, hs⟩ := bind_eq_ok.mp hs
  obtain ⟨⟨w', cardDeck'⟩, hdeal, hs⟩ := bind_eq_ok.mp hs
  obtain ⟨user, -, hs⟩ := bind_eq_ok.mp hs
  cases hs
  exact assign2Cards_log cardDeck w.players (w.createCards base) dealing _ hdeal

end LeavesLog

/-! ## Executing a move -/

/-- The move that has been announced and is executed next. -/
def Place.announced : Place → List Move
  | .chosen t => [t.curMove]
  | _ => []

/-- The move that an event makes the game execute. -/
def Loop.executes (y : Loop) : LoopEvent → List Move
  | .thread _ => y.place.announced
  | _ => []

/-- The game thread appends a move to the log when it executes it, and only
then. -/
theorem LoopMove.moveLog {y y' : Loop} {i : TurnInput}
    (hmove : LoopMove y i y') :
    y'.game.world.moveLog = y.game.world.moveLog ++ y.place.announced := by
  cases hmove with
  | claim t hplace _ | log t hplace _ =>
      rw [hplace]
      rfl
  | start hplace | skip _ hplace _ _ _ | pick _ hplace _ _ _ | quit hplace _
    | prompt _ hplace _ _ | wake hplace | seat _ _ hplace _
    | round _ _ hplace _ | pass _ _ _ hplace _ _ | ask _ _ _ hplace _ _
    | wait _ _ _ hplace _ | notice _ _ _ hplace _ | retry _ _ _ hplace _
    | send _ _ _ hplace | object _ _ _ _ hplace _ _ _
    | allow _ _ _ _ hplace _ _ _ | drop _ _ hplace | turn hplace =>
      rw [hplace]
      exact (List.append_nil _).symm
  | choose p m s hplace hchosen =>
      rw [hplace]
      apply Eq.trans _ (List.append_nil _).symm
      cases hchosen with
      | user _ _ _ hstate => rw [hstate]
      | ai w _ hmove hstate =>
          rw [hstate]
          exact getPlayerMove_log p _ i.ai _ hmove
  | answer t curMove o p w hplace _ hanswer =>
      rw [hplace]
      apply Eq.trans _ (List.append_nil _).symm
      exact getChallengeOrAllow_log p _ _ _ _ hanswer
  | expose t o s newCard hplace _ hshow =>
      rw [hplace]
      apply Eq.trans _ (List.append_nil _).symm
      exact showClaim_log _ _ _ _ _ _ hshow
  | fail t o w hplace _ hreveal =>
      rw [hplace]
      apply Eq.trans _ (List.append_nil _).symm
      exact World.revealCard_moveLog hreveal
  | act t s place hplace hact =>
      have hnone : y.place.announced = [] := by
        rcases hplace with ⟨⟨o, h, -⟩, -⟩ | ⟨h, -⟩ | ⟨theCard, newCard, h, -⟩
        all_goals
          rw [h]
          rfl
      rw [hnone, List.append_nil]
      exact actOnMove_log _ _ _ _ hact
  | replace t theCard newCard s hplace hreplace =>
      rw [hplace]
      apply Eq.trans _ (List.append_nil _).symm
      exact replaceClaim_log _ _ _ _ _ _ hreplace
  | judge s hplace hjudge =>
      rw [hplace]
      apply Eq.trans _ (List.append_nil _).symm
      exact isGameOver_log _ _ hjudge

theorem stepLoop_log {y y' : Loop} {e : LoopEvent}
    (hstep : stepLoop y e = .ok y') :
    y'.game.world.moveLog = y.game.world.moveLog ++ y.executes e := by
  cases e with
  | thread i => exact (stepThread_spec hstep).moveLog
  | deliver =>
      obtain ⟨block, queue, -, rfl⟩ := stepLoop_deliver hstep
      cases block <;> exact (List.append_nil _).symm
  | tap a =>
      obtain ⟨-, caller, target, -, -, rfl⟩ := stepLoop_tap hstep
      exact (List.append_nil _).symm
  | press q =>
      obtain ⟨-, caller, s, -, hsubmits, rfl⟩ := stepLoop_press hstep
      apply Eq.trans _ (List.append_nil _).symm
      exact congrArg World.moveLog hsubmits.world
  | endGame =>
      cases hstep
      exact (List.append_nil _).symm

end Coup
