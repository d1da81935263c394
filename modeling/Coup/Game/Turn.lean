import Coup.Game.Table
import Coup.Rules.Turn

/-!
# What one turn does

Each function of the controller gets two lemmas: `Evolves` says what it leaves
alone, `Shows` follows the cards and the board.  Both are composed along
the program: exchange, effect of a move, won challenge, challenge round.
-/

namespace Coup

open Coup.Support

/-- What the operations of a turn leave alone; the buttons can only be
disabled. -/
structure Evolves (s s' : State) : Prop where
  table : SameTable s.world s'.world
  moveLog : s'.world.moveLog = s.world.moveLog
  user : s'.vc.user = s.vc.user
  AIs : s'.vc.AIs = s.vc.AIs
  playerMove : s'.vc.playerMove = s.vc.playerMove
  didPlayerMove : s'.vc.didPlayerMove = s.vc.didPlayerMove
  turnInd : s'.vc.turnInd = s.vc.turnInd
  status : s'.vc.status = s.vc.status
  gameOn : s'.vc.gameOn = s.vc.gameOn
  buttons : s'.vc.buttons = s.vc.buttons ∨ s'.vc.buttons = disableAllButtons

namespace Evolves

theorem refl (s : State) : Evolves s s :=
  ⟨.refl _, rfl, rfl, rfl, rfl, rfl, rfl, rfl, rfl, Or.inl rfl⟩

theorem trans {s₁ s₂ s₃ : State} (h : Evolves s₁ s₂) (h' : Evolves s₂ s₃) :
    Evolves s₁ s₃ where
  table := h.table.trans h'.table
  moveLog := h'.moveLog.trans h.moveLog
  user := h'.user.trans h.user
  AIs := h'.AIs.trans h.AIs
  playerMove := h'.playerMove.trans h.playerMove
  didPlayerMove := h'.didPlayerMove.trans h.didPlayerMove
  turnInd := h'.turnInd.trans h.turnInd
  status := h'.status.trans h.status
  gameOn := h'.gameOn.trans h.gameOn
  buttons := by
    rcases h'.buttons with hkeep | hoff
    · rw [hkeep]
      exact h.buttons
    · exact Or.inr hoff

/-- A change of the heap, the deck and the pair of drawn cards only. -/
theorem of_world {s : State} {w : World} (htable : SameTable s.world w)
    (hlog : w.moveLog = s.world.moveLog) (cardDeck : CardDeck)
    (twoCards : Option (CardRef × CardRef)) :
    Evolves s { s with
      world := w
      vc.cardDeck := cardDeck
      vc.twoCards := twoCards } :=
  ⟨htable, hlog, rfl, rfl, rfl, rfl, rfl, rfl, rfl, Or.inl rfl⟩

end Evolves

/-- The deck has no placeholder, and the table shows the board while some
cards are parked in local variables. -/
def Shows (created : List CardRef) (s : State) (parked : List CardRef)
    (b : Board PlayerRef) : Prop :=
  ∃ cards : List CardRef, s.vc.cardDeck = cards.map some ∧
    OnTable created s.world cards parked b

/-! ## Exchange -/

/-- During an exchange two drawn cards are parked in `twoCards`. -/
structure Offers (created : List CardRef) (s : State) (two : CardRef × CardRef)
    (parked : List CardRef) (b : Board PlayerRef) : Prop where
  twoCards : s.vc.twoCards = some two
  shows : Shows created s (two.1 :: two.2 :: parked) b

section Exchange

variable {created : List CardRef} {s s' : State} {two : CardRef × CardRef}
  {parked : List CardRef} {b : Board PlayerRef} {p : PlayerRef} {i : Slot}

/-- Swapping a hidden card of a hand against the first drawn card. -/
theorem Offers.swapLeft (h : Offers created s two parked b)
    (hp : p ∈ s.world.players) (hdown : (s.world.held p i).revealed = false) :
    Offers created
      { s with
        vc.twoCards := some (s.world.slot p i, two.2)
        world := s.world.setSlot p i two.1 }
      (s.world.slot p i, two.2) parked b where
  twoCards := rfl
  shows := by
    obtain ⟨cards, hdeck, htable⟩ := h.shows
    exact ⟨cards, hdeck, htable.swapSlot hp hdown⟩

/-- Swapping a hidden card of a hand against the second drawn card. -/
theorem Offers.swapRight (h : Offers created s two parked b)
    (hp : p ∈ s.world.players) (hdown : (s.world.held p i).revealed = false) :
    Offers created
      { s with
        vc.twoCards := some (two.1, s.world.slot p i)
        world := s.world.setSlot p i two.2 }
      (two.1, s.world.slot p i) parked b where
  twoCards := rfl
  shows := by
    obtain ⟨cards, hdeck, htable⟩ := h.shows
    have hswapped :=
      (htable.park_perm (.swap two.1 two.2 parked)).swapSlot hp hdown
    exact ⟨cards, hdeck, hswapped.park_perm (.swap _ _ _)⟩

theorem Evolves.swap (s : State) (p : PlayerRef) (i : Slot) (c : CardRef)
    (two : CardRef × CardRef) :
    Evolves s { s with
      vc.twoCards := some two
      world := s.world.setSlot p i c } :=
  .of_world (.setSlot s.world p i c) rfl s.vc.cardDeck (some two)

theorem answerDialog_spec {caseNum : ℕ} {answer : ExchangeAnswer}
    (h : Offers created s two parked b) (huser : s.vc.user ∈ s.world.players)
    (hcase : caseNum = 0 ∧ i = .first ∨ caseNum = 2 ∧ i = .second)
    (hdown : (s.world.held s.vc.user i).revealed = false)
    (hanswer : answerDialog s ⟨two, caseNum⟩ answer = .ok s') :
    (∃ two', Offers created s' two' parked b) ∧ Evolves s s' := by
  have htwo := h.twoCards
  cases answer with
  | keep =>
      cases hanswer
      exact ⟨⟨two, h⟩, .refl s⟩
  | first =>
      rcases hcase with ⟨rfl, rfl⟩ | ⟨rfl, rfl⟩
      · simp only [answerDialog, recognizeLongPressedGesture1, applyExchange,
          htwo, orFault, if_true, bind_ok, pure_eq_ok] at hanswer
        subst hanswer
        exact ⟨⟨_, h.swapLeft huser hdown⟩, .swap ..⟩
      · simp only [answerDialog, recognizeLongPressedGesture1, applyExchange,
          htwo, orFault, if_true, bind_ok, pure_eq_ok, OfNat.ofNat_ne_zero,
          if_false] at hanswer
        subst hanswer
        exact ⟨⟨_, h.swapLeft huser hdown⟩, .swap ..⟩
  | second =>
      rcases hcase with ⟨rfl, rfl⟩ | ⟨rfl, rfl⟩
      · simp only [answerDialog, recognizeLongPressedGesture2, applyExchange,
          htwo, orFault, if_true, bind_ok, pure_eq_ok] at hanswer
        subst hanswer
        exact ⟨⟨_, h.swapRight huser hdown⟩, .swap ..⟩
      · simp only [answerDialog, recognizeLongPressedGesture2, applyExchange,
          htwo, orFault, if_true, bind_ok, pure_eq_ok, OfNat.ofNat_ne_zero,
          if_false] at hanswer
        subst hanswer
        exact ⟨⟨_, h.swapRight huser hdown⟩, .swap ..⟩

theorem offerExchange_spec {caseNum : ℕ} {answer : ExchangeAnswer}
    (h : Offers created s two parked b) (huser : s.vc.user ∈ s.world.players)
    (hcase : caseNum = 0 ∧ i = .first ∨ caseNum = 2 ∧ i = .second)
    (hoffer : offerExchange s i caseNum answer = .ok s') :
    (∃ two', Offers created s' two' parked b) ∧ Evolves s s' := by
  unfold offerExchange at hoffer
  split at hoffer
  next hdown =>
    rw [h.twoCards, orFault, bind_ok] at hoffer
    exact answerDialog_spec h huser hcase hdown hoffer
  next =>
    cases hoffer
    exact ⟨⟨two, h⟩, .refl s⟩

theorem swapFirst_spec (h : Offers created s two parked b)
    (hp : p ∈ s.world.players) (hswap : swapFirst s p = .ok s') :
    (∃ two', Offers created s' two' parked b) ∧ Evolves s s' := by
  unfold swapFirst at hswap
  split at hswap
  next hdown =>
    rw [h.twoCards, orFault, bind_ok, pure_eq_ok] at hswap
    subst hswap
    exact ⟨⟨_, h.swapLeft hp hdown⟩, .swap ..⟩
  next =>
    cases hswap
    exact ⟨⟨two, h⟩, .refl s⟩

theorem swapSecond_spec (h : Offers created s two parked b)
    (hp : p ∈ s.world.players) (hswap : swapSecond s p = .ok s') :
    (∃ two', Offers created s' two' parked b) ∧ Evolves s s' := by
  unfold swapSecond at hswap
  split at hswap
  next hdown =>
    rw [h.twoCards, orFault, bind_ok, pure_eq_ok] at hswap
    subst hswap
    exact ⟨⟨_, h.swapRight hp hdown⟩, .swap ..⟩
  next =>
    cases hswap
    exact ⟨⟨two, h⟩, .refl s⟩

theorem exchangeCards_spec {x : ExchangeInput}
    (h : Offers created s two parked b) (huser : s.vc.user ∈ s.world.players)
    (hp : p ∈ s.world.players) (hcards : exchangeCards s p x = .ok s') :
    (∃ two', Offers created s' two' parked b) ∧ Evolves s s' := by
  unfold exchangeCards at hcards
  split at hcards
  next =>
    rw [bind_eq_ok] at hcards
    obtain ⟨s₁, hfirst, hsecond⟩ := hcards
    obtain ⟨⟨two₁, h₁⟩, hev₁⟩ :=
      offerExchange_spec h huser (Or.inl ⟨rfl, rfl⟩) hfirst
    have huser₁ : s₁.vc.user ∈ s₁.world.players := by
      rw [hev₁.user, hev₁.table.players]
      exact huser
    obtain ⟨h₂, hev₂⟩ :=
      offerExchange_spec h₁ huser₁ (Or.inr ⟨rfl, rfl⟩) hsecond
    exact ⟨h₂, hev₁.trans hev₂⟩
  next =>
    rw [bind_eq_ok] at hcards
    obtain ⟨s₁, hfirst, hsecond⟩ := hcards
    obtain ⟨⟨two₁, h₁⟩, hev₁⟩ := swapFirst_spec h hp hfirst
    have hp₁ : p ∈ s₁.world.players := hev₁.table.players ▸ hp
    obtain ⟨h₂, hev₂⟩ := swapSecond_spec h₁ hp₁ hsecond
    exact ⟨h₂, hev₁.trans hev₂⟩

/-- Drawing the two cards of an exchange. -/
theorem Shows.offers {draw1 draw2 : ℕ} {deck : CardDeck}
    (h : Shows created s parked b)
    (hdraw : give2Cards s.vc.cardDeck draw1 draw2 = .ok (two, deck)) :
    Offers created { s with vc.cardDeck := deck, vc.twoCards := some two } two
      parked b := by
  obtain ⟨cards, hdeck, htable⟩ := h
  rw [hdeck] at hdraw
  obtain ⟨cards₁, rfl, hperm⟩ := give2Cards_spec hdraw
  have hdrawn := (htable.draw hperm).draw (.refl _)
  exact ⟨rfl, ⟨cards₁, rfl, hdrawn.park_perm (.swap _ _ _)⟩⟩

/-- An exchange moves cards between a hand and the deck and shows nothing. -/
theorem exchange_spec {x : ExchangeInput} (h : Shows created s parked b)
    (huser : s.vc.user ∈ s.world.players) (hp : p ∈ s.world.players)
    (hexchange : exchange s p x = .ok s') :
    Shows created s' parked b ∧ Evolves s s' := by
  rw [exchange, bind_eq_ok] at hexchange
  obtain ⟨⟨two, deck₁⟩, hdraw, hexchange⟩ := hexchange
  rw [bind_eq_ok] at hexchange
  obtain ⟨s₂, hcards, hexchange⟩ := hexchange
  have hoffers := h.offers hdraw
  obtain ⟨⟨two', h₃⟩, hev⟩ := exchangeCards_spec hoffers huser hp hcards
  obtain ⟨cards₃, hdeck₃, htable₃⟩ := h₃.shows
  rw [h₃.twoCards, orFault, bind_ok, hdeck₃, bind_eq_ok] at hexchange
  obtain ⟨deck₄, hback, hexchange⟩ := hexchange
  obtain ⟨cards₄, rfl, hperm₄⟩ := get2CardsBackNShuffle_spec hback
  cases hexchange
  constructor
  · refine ⟨cards₄, rfl, ?_⟩
    exact (htable₃.giveBack (.refl _)).giveBack (hperm₄.trans (.swap _ _ _))
  · have hstart : Evolves s
        { s with vc.cardDeck := deck₁, vc.twoCards := some two } :=
      .of_world (.refl _) rfl _ _
    exact (hstart.trans hev).trans (.of_world (.refl _) rfl _ _)

end Exchange

/-! ## The effect of a move -/

section Act

variable {created : List CardRef} {s s' : State} {parked : List CardRef}
  {b : Board PlayerRef} {m : Move} {x : ExchangeInput}

theorem Evolves.world {s : State} {w : World} (htable : SameTable s.world w)
    (hlog : w.moveLog = s.world.moveLog) : Evolves s { s with world := w } :=
  .of_world htable hlog s.vc.cardDeck s.vc.twoCards

theorem payAndLose_spec {p q : PlayerRef} {n : ℤ} {w : World}
    (h : Shows created s parked b) (hq : q ∈ s.world.players)
    (hreveal : (s.world.addCoins p n).revealCard q = .ok w) :
    Shows created { s with world := w } parked ((b.pay p n).lose q) ∧
      Evolves s { s with world := w } := by
  obtain ⟨cards, hdeck, htable⟩ := h
  constructor
  · exact ⟨cards, hdeck, (htable.addCoins p n).revealCard hq hreveal⟩
  · have hlog : w.moveLog = (s.world.addCoins p n).moveLog :=
      World.revealCard_moveLog hreveal
    exact .world ((SameTable.addCoins _ p n).trans (.revealCard hreveal)) hlog

/-- `actOnMove` acts on the board as the move says, and an exchange does not
show. -/
theorem actOnMove_spec (h : Shows created s parked b)
    (huser : s.vc.user ∈ s.world.players)
    (hcaller : m.caller ∈ s.world.players)
    (htarget : m.target ∈ s.world.players)
    (hact : actOnMove s m x = .ok s') :
    Shows created s' parked (b.act m.name m.caller m.target) ∧
      Evolves s s' := by
  obtain ⟨name, caller, target⟩ := m
  have hpay : ∀ p n, Shows created { s with world := s.world.addCoins p n }
      parked (b.pay p n) := by
    intro p n
    obtain ⟨cards, hdeck, htable⟩ := h
    exact ⟨cards, hdeck, htable.addCoins p n⟩
  have hkeep : ∀ p n, Evolves s { s with world := s.world.addCoins p n } :=
    fun p n => .world (.addCoins _ p n) rfl
  cases name with
  | income => cases hact; exact ⟨hpay _ _, hkeep _ _⟩
  | foreignAid => cases hact; exact ⟨hpay _ _, hkeep _ _⟩
  | tax => cases hact; exact ⟨hpay _ _, hkeep _ _⟩
  | coup =>
      simp only [actOnMove, bind_eq_ok, pure_eq_ok] at hact
      obtain ⟨w, hreveal, rfl⟩ := hact
      exact payAndLose_spec h htarget hreveal
  | assassinate =>
      simp only [actOnMove, bind_eq_ok, pure_eq_ok] at hact
      obtain ⟨w, hreveal, rfl⟩ := hact
      exact payAndLose_spec h htarget hreveal
  | steal =>
      cases hact
      obtain ⟨cards, hdeck, htable⟩ := h
      constructor
      · exact ⟨cards, hdeck, (htable.addCoins _ _).addCoins _ _⟩
      · exact .world ((SameTable.addCoins _ _ _).trans (.addCoins _ _ _)) rfl
  | exchange => exact exchange_spec h huser hcaller hact
  | unnamed => cases hact; exact ⟨h, .refl s⟩
  | allow => cases hact; exact ⟨h, .refl s⟩
  | challenge => cases hact; exact ⟨h, .refl s⟩

end Act

/-! ## The won challenge -/

section Won

variable {created : List CardRef} {s s' : State} {b : Board PlayerRef}
  {parked : List CardRef} {p q : PlayerRef} {m o : Move} {i : TurnInput}
  {j : Slot} {theCard : ℤ} {c : CardRef}

theorem showCard_moveLog (p : PlayerRef) (w : World)
    (theCard : ℤ) :
    (showCard w p theCard).moveLog = w.moveLog := by
  rw [showCard]
  split <;> rfl

theorem showClaim_log (s : State) (p challenger : PlayerRef) (theCard : ℤ)
    (draw : ℕ) :
    Ensures (fun r => r.1.world.moveLog = s.world.moveLog)
      (showClaim s p challenger theCard draw) := by
  apply Ensures.bind
  intro w hw
  apply Ensures.bind
  rintro ⟨newCard, cardDeck⟩ _
  apply ensures_ok
  exact (showCard_moveLog p w theCard).trans (World.revealCard_moveLog hw)

theorem showClaim_spec {draw : ℕ} (h : Shows created s parked b)
    (hp : p ∈ s.world.players) (hq : q ∈ s.world.players)
    (hslot : slotOf theCard = some j)
    (hshow : showClaim s p q theCard draw = .ok (s', c)) :
    Shows created s' (c :: parked) ((b.lose q).turn p j true) ∧
      Evolves s s' := by
  obtain ⟨cards, hdeck, htable⟩ := h
  rw [showClaim, bind_eq_ok] at hshow
  obtain ⟨w, hreveal, hshow⟩ := hshow
  rw [bind_eq_ok] at hshow
  obtain ⟨⟨c', deck'⟩, hdraw, hshow⟩ := hshow
  rw [hdeck] at hdraw
  obtain ⟨cards', rfl, hperm⟩ := giveACard_spec hdraw
  cases hshow
  have hplayers := (SameTable.revealCard hreveal).players
  have hp' : p ∈ w.players := hplayers ▸ hp
  have hdrawn := (htable.revealCard hq hreveal).draw hperm
  simp only [showCard, hslot]
  refine ⟨⟨cards', rfl, hdrawn.turnSlot hp' j true⟩, ?_⟩
  have hlog : w.moveLog = s.world.moveLog := World.revealCard_moveLog hreveal
  exact .of_world ((SameTable.revealCard hreveal).trans (.setRevealed _ _ _))
    hlog _ _

theorem replaceClaim_spec {draws : List ℕ}
    (h : Shows created s (c :: parked) b) (hp : p ∈ s.world.players)
    (hslot : slotOf theCard = some j)
    (hreplace : replaceClaim s p theCard c draws = .ok s') :
    Shows created s' parked (b.turn p j false) ∧ Evolves s s' := by
  obtain ⟨cards, hdeck, htable⟩ := h
  simp only [replaceClaim, replaceCard, hslot, bind_eq_ok] at hreplace
  obtain ⟨⟨w, deck'⟩, hback, hreplace⟩ := hreplace
  rw [hdeck] at hback
  obtain ⟨rfl, cards', rfl, hperm⟩ := get1CardBackNShuffle_spec hback
  cases hreplace
  refine ⟨⟨cards', rfl, (htable.replaceSlot hp j).giveBack hperm⟩, ?_⟩
  exact .of_world ((SameTable.setSlot _ _ _ _).trans (.setRevealed _ _ _))
    rfl _ _

/-- The players a move and an objection refer to sit at the table. -/
structure Seated (s : State) (m : Move) : Prop where
  caller : m.caller ∈ s.world.players
  target : m.target ∈ s.world.players

theorem Seated.evolves (h : Seated s m) (hev : Evolves s s') : Seated s' m :=
  ⟨hev.table.players ▸ h.caller, hev.table.players ▸ h.target⟩

theorem winChallenge_spec (h : Shows created s parked b)
    (huser : s.vc.user ∈ s.world.players) (hp : p ∈ s.world.players)
    (hm : Seated s m) (ho : Seated s o)
    (hslot : slotOf (s.world.checkhaveCard p m.name) = some j)
    (hwin : winChallenge s p m o i = .ok s') :
    Shows created s' parked
        (b.winChallenge p o.caller j m.name m.caller m.target) ∧
      Evolves s s' := by
  rw [winChallenge, bind_eq_ok] at hwin
  obtain ⟨⟨s₁, c⟩, hshow, hwin⟩ := hwin
  rw [bind_eq_ok] at hwin
  obtain ⟨s₂, hact, hreplace⟩ := hwin
  obtain ⟨h₁, hev₁⟩ := showClaim_spec h hp ho.caller hslot hshow
  have hm₁ := hm.evolves hev₁
  have huser₁ : s₁.vc.user ∈ s₁.world.players := by
    rw [hev₁.user, hev₁.table.players]
    exact huser
  obtain ⟨h₂, hev₂⟩ := actOnMove_spec h₁ huser₁ hm₁.caller hm₁.target hact
  have hp₂ : p ∈ s₂.world.players := by
    rw [hev₂.table.players, hev₁.table.players]
    exact hp
  obtain ⟨h₃, hev₃⟩ := replaceClaim_spec h₂ hp₂ hslot hreplace
  exact ⟨h₃, (hev₁.trans hev₂).trans hev₃⟩

end Won

end Coup
