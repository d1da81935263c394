import Coup.Threads.Loop

/-!
# The End Game button in the middle of a turn

`gameOn` is read only at the head of the loop.  Everything that a turn does in
between commutes with setting it to false, so a press of End Game in the middle
of a turn can be moved behind the turn.
-/

namespace Coup

open Coup.Support

/-- What `prepare(for:)` leaves when the End Game button is pressed. -/
def State.quit (s : State) : State := { s with vc.gameOn := false }

section Quit

variable (s : State)

@[simp] theorem quit_quit : s.quit.quit = s.quit := rfl

theorem quit_takeMove (p : PlayerRef) (i : AIInput) :
    takeMove s.quit p i = (takeMove s p i).map (Prod.map State.quit id) := by
  refine ite_map_congr Iff.rfl (fun _ => ?_) fun _ => ?_
  · exact ite_map_congr Iff.rfl (fun _ => rfl) fun _ => rfl
  · exact bind_congr_map fun q _ => rfl

/-! ## The effect of a move -/

theorem quit_applyExchange (c : CardRef) (n : ℕ) :
    applyExchange s.quit c n = (applyExchange s c n).map State.quit := by
  refine bind_congr_map fun two _ => ?_
  split <;> rfl

theorem quit_answerDialog (d : Dialog) (a : ExchangeAnswer) :
    answerDialog s.quit d a = (answerDialog s d a).map State.quit := by
  cases a with
  | keep => rfl
  | first | second =>
      exact ite_map_congr Iff.rfl (fun _ => quit_applyExchange s _ _) fun _ =>
        ite_map_congr Iff.rfl (fun _ => quit_applyExchange s _ _) fun _ => rfl

theorem quit_offerExchange (i : Slot) (n : ℕ) (a : ExchangeAnswer) :
    offerExchange s.quit i n a =
      (offerExchange s i n a).map State.quit := by
  refine ite_map_congr Iff.rfl (fun _ => ?_) fun _ => rfl
  exact bind_congr_map fun two _ => quit_answerDialog s _ a

theorem quit_swapFirst (caller : PlayerRef) :
    swapFirst s.quit caller = (swapFirst s caller).map State.quit := by
  refine ite_map_congr Iff.rfl (fun _ => ?_) fun _ => rfl
  exact bind_congr_map fun two _ => rfl

theorem quit_swapSecond (caller : PlayerRef) :
    swapSecond s.quit caller = (swapSecond s caller).map State.quit := by
  refine ite_map_congr Iff.rfl (fun _ => ?_) fun _ => rfl
  exact bind_congr_map fun two _ => rfl

theorem quit_exchangeCards (caller : PlayerRef) (x : ExchangeInput) :
    exchangeCards s.quit caller x =
      (exchangeCards s caller x).map State.quit :=
  ite_map_congr Iff.rfl
    (fun _ => bind_map_congr (quit_offerExchange s _ _ _)
      fun s _ => quit_offerExchange s _ _ _)
    fun _ => bind_map_congr (quit_swapFirst s caller)
      fun s _ => quit_swapSecond s caller

theorem quit_exchange (caller : PlayerRef) (x : ExchangeInput) :
    exchange s.quit caller x = (exchange s caller x).map State.quit := by
  refine bind_congr_map fun drawn _ => ?_
  obtain ⟨two, cardDeck⟩ := drawn
  let s₁ : State :=
    { s with vc.cardDeck := cardDeck, vc.twoCards := some two }
  refine bind_map_congr (quit_exchangeCards s₁ caller x) fun s₂ _ => ?_
  refine bind_congr_map fun two _ => ?_
  exact bind_congr_map fun cardDeck _ => rfl

theorem quit_actOnMove (m : Move) (x : ExchangeInput) :
    actOnMove s.quit m x = (actOnMove s m x).map State.quit := by
  unfold actOnMove
  split
  case h_4 => exact quit_exchange s m.caller x
  all_goals first | rfl | exact bind_congr_map fun w _ => rfl

/-! ## The challenge -/

theorem quit_tapAnswer (a : Answer) :
    tapAnswer s.quit a = (tapAnswer s a).map State.quit := by
  have hpress : answerBtnPressed s.quit a =
      (answerBtnPressed s a).map State.quit := by
    refine bind_congr_map fun caller _ => ?_
    exact bind_congr_map fun target _ => rfl
  cases a <;> exact hpress

theorem quit_slotUse (curMove : Move) :
    slotUse s.quit curMove =
      (slotUse s curMove).map (Prod.map State.quit id) := by
  refine ite_map_congr Iff.rfl (fun _ => ?_) fun _ => ?_
  · exact ite_map_congr Iff.rfl (fun _ => rfl) fun _ => rfl
  · refine ite_map_congr Iff.rfl (fun _ => rfl) fun _ => ?_
    refine bind_congr_map fun caller _ => ?_
    exact bind_congr_map fun target _ => rfl

theorem quit_slotAsk (m curMove : Move) (p : PlayerRef) (r : RoundInput) :
    slotAsk s.quit m p curMove r =
      (slotAsk s m p curMove r).map (Prod.map State.quit id) := by
  refine ite_map_congr Iff.rfl (fun _ => ?_) fun _ => ?_
  · exact bind_map_congr (quit_tapAnswer s r.answer) fun s _ => rfl
  · exact bind_congr_map fun q _ => rfl

theorem quit_slotStep (m curMove : Move) (r : RoundInput) :
    slotStep s.quit m curMove r =
      (slotStep s m curMove r).map (Prod.map State.quit id) := by
  have hhead : slotHead s.quit m =
      (slotHead s m).map (Prod.map State.quit id) := by
    refine bind_congr_map fun player _ => ?_
    exact ite_map_congr Iff.rfl (fun _ => rfl) fun _ => rfl
  refine bind_map_congr hhead fun q _ => ?_
  obtain ⟨s₁, asked⟩ := q
  cases asked with
  | none => rfl
  | some p =>
      exact bind_map_congr (quit_slotAsk s₁ m curMove p r)
        fun q _ => quit_slotUse q.1 q.2

theorem quit_anyChallengesLoop (m curMove : Move) (r : RoundInput)
    (bound : ℕ) :
    anyChallengesLoop m r bound s.quit curMove =
      (anyChallengesLoop m r bound s curMove).map (Prod.map State.quit id) := by
  induction bound generalizing s curMove with
  | zero => rfl
  | succ bound ih =>
      refine ite_map_congr Iff.rfl (fun _ => ?_) fun _ => rfl
      refine bind_map_congr (quit_slotStep s m curMove r) fun q _ => ?_
      obtain ⟨s₁, result⟩ := q
      cases result with
      | answered o => rfl
      | next curMove => exact ih s₁ curMove

theorem quit_replaceClaim (p : PlayerRef) (theCard : ℤ) (newCard : CardRef)
    (draws : List ℕ) :
    replaceClaim s.quit p theCard newCard draws =
      (replaceClaim s p theCard newCard draws).map State.quit :=
  bind_congr_map fun _ _ => rfl

theorem quit_resolve (p : PlayerRef) (m o : Move) (i : TurnInput) :
    resolve s.quit p m o i = (resolve s p m o i).map State.quit := by
  have hshow : showClaim s.quit p o.caller
      (s.world.checkhaveCard p m.name) i.newCard =
        (showClaim s p o.caller (s.world.checkhaveCard p m.name)
          i.newCard).map (Prod.map State.quit id) := by
    refine bind_congr_map fun w _ => ?_
    exact bind_congr_map fun q _ => rfl
  refine ite_map_congr Iff.rfl (fun _ => ?_) fun _ => ?_
  · refine ite_map_congr Iff.rfl (fun _ => ?_) fun _ => ?_
    · refine bind_map_congr hshow fun q _ => ?_
      refine bind_map_congr (quit_actOnMove q.1 m i.exchange) fun s₁ _ => ?_
      exact quit_replaceClaim s₁ p _ _ _
    · exact bind_congr_map fun w _ => rfl
  · refine ite_map_congr Iff.rfl (fun _ => ?_) fun _ => rfl
    exact quit_actOnMove s m i.exchange

theorem quit_endTurn : endTurn s.quit = (endTurn s).map State.quit := by
  have hjudge : isGameOver s.quit = (isGameOver s).map State.quit := by
    refine ite_map_congr Iff.rfl (fun _ => ?_) fun _ => rfl
    exact bind_congr_map fun player0 _ => rfl
  exact bind_map_congr hjudge fun s₁ _ => rfl

end Quit

/-! ## The loop -/

/-- The loop after the End Game button. -/
def Loop.quit (y : Loop) : Loop := { y with game := y.game.quit }

theorem quit_atPicked (y : Loop) (p : PlayerRef) (i : TurnInput) :
    atPicked y.quit p i = (atPicked y p i).map Loop.quit := by
  refine bind_map_congr (quit_takeMove y.game p i.ai) fun q _ => ?_
  obtain ⟨s, selection⟩ := q
  cases selection <;> rfl

end Coup
