import Coup.Backend.PublicView
import Coup.Game.Moves
import Mathlib.Data.Set.Piecewise

/-!
# What a game can see and touch

A footprint is a set of player and card objects.  `over` replaces the rest of
the heap by that of another one.  Each function of the controller commutes with
it when the objects it is given lie in the footprint, so it neither depends on
the rest of the heap nor changes it.  `Stays` says that the objects a function
gets hold of lie in the footprint again.
-/

namespace Coup

open Coup.Support

/-- Updating a function within the set on which it is used. -/
theorem update_piecewise {α β : Type*} [DecidableEq α] {s : Set α}
    [∀ j, Decidable (j ∈ s)] {i : α} (hi : i ∈ s) (f g : α → β) (x : β) :
    Function.update (s.piecewise f g) i x =
      s.piecewise (Function.update f i x) g := by
  funext j
  by_cases hj : j = i
  · subst hj
    rw [Function.update_self, Set.piecewise_eq_of_mem _ _ _ hi,
      Function.update_self]
  · rw [Function.update_of_ne hj]
    by_cases hmem : j ∈ s
    · rw [Set.piecewise_eq_of_mem _ _ _ hmem,
        Set.piecewise_eq_of_mem _ _ _ hmem, Function.update_of_ne hj]
    · rw [Set.piecewise_eq_of_notMem _ _ _ hmem,
        Set.piecewise_eq_of_notMem _ _ _ hmem]

/-- The objects of one game. -/
structure Footprint where
  players : Set PlayerRef
  cards : Set CardRef

/-- The objects of `w` in the footprint and those of `v` elsewhere, with the
globals of `w`. -/
noncomputable def World.over (w : World) (F : Footprint) (v : World) : World :=
  open Classical in
  { w with
    card := F.cards.piecewise w.card v.card
    player := F.players.piecewise w.player v.player }

noncomputable def State.over (s : State) (F : Footprint) (v : World) : State :=
  { s with world := s.world.over F v }

/-- Every card in a hand of the footprint belongs to it. -/
def Hands (F : Footprint) (w : World) : Prop :=
  ∀ p ∈ F.players, ∀ i, w.slot p i ∈ F.cards

section World

variable {F : Footprint} {w v : World} {p : PlayerRef} {c : CardRef}

@[simp] theorem over_players : (w.over F v).players = w.players := rfl

@[simp] theorem over_moveLog : (w.over F v).moveLog = w.moveLog := rfl

@[simp] theorem over_username : (w.over F v).username = w.username := rfl

open Classical in
theorem over_player (hp : p ∈ F.players) :
    (w.over F v).player p = w.player p :=
  Set.piecewise_eq_of_mem _ _ _ hp

open Classical in
theorem over_card (hc : c ∈ F.cards) : (w.over F v).card c = w.card c :=
  Set.piecewise_eq_of_mem _ _ _ hc

open Classical in
theorem over_player_of_notMem (hp : p ∉ F.players) :
    (w.over F v).player p = v.player p :=
  Set.piecewise_eq_of_notMem _ _ _ hp

open Classical in
theorem over_card_of_notMem (hc : c ∉ F.cards) :
    (w.over F v).card c = v.card c :=
  Set.piecewise_eq_of_notMem _ _ _ hc

/-- Only the objects of the footprint and the globals matter. -/
theorem over_congr {w' : World}
    (hplayer : ∀ q ∈ F.players, w'.player q = w.player q)
    (hcard : ∀ d ∈ F.cards, w'.card d = w.card d)
    (hplayers : w'.players = w.players) (hlog : w'.moveLog = w.moveLog)
    (husername : w'.username = w.username) : w'.over F v = w.over F v := by
  have hp : (w'.over F v).player = (w.over F v).player := by
    funext q
    by_cases hq : q ∈ F.players
    · rw [over_player hq, over_player hq, hplayer q hq]
    · rw [over_player_of_notMem hq, over_player_of_notMem hq]
  have hc : (w'.over F v).card = (w.over F v).card := by
    funext d
    by_cases hd : d ∈ F.cards
    · rw [over_card hd, over_card hd, hcard d hd]
    · rw [over_card_of_notMem hd, over_card_of_notMem hd]
  unfold World.over at hp hc ⊢
  simp only at hp hc
  rw [hp, hc, hplayers, hlog, husername]

theorem over_over : (w.over F v).over F v = w.over F v :=
  over_congr (fun _ hp => over_player hp) (fun _ hc => over_card hc) rfl rfl
    rfl

theorem over_self : w.over F w = w := by
  simp [World.over, Set.piecewise_same]

theorem over_slot (hp : p ∈ F.players) (i : Slot) :
    (w.over F v).slot p i = w.slot p i := by
  cases i <;> simp only [World.slot, over_player hp]

theorem over_held (h : Hands F w) (hp : p ∈ F.players) (i : Slot) :
    (w.over F v).held p i = w.held p i := by
  rw [World.held, over_slot hp, over_card (h p hp i)]
  rfl

theorem over_isPlayerRevealed (h : Hands F w) (hp : p ∈ F.players) :
    (w.over F v).isPlayerRevealed p = w.isPlayerRevealed p := by
  simp only [World.isPlayerRevealed, over_held h hp]

theorem over_checkhaveCard (h : Hands F w) (hp : p ∈ F.players)
    (m : MoveName) :
    (w.over F v).checkhaveCard p m = w.checkhaveCard p m := by
  simp only [World.checkhaveCard, over_held h hp]

open Classical in
/-- An assignment to an object of the footprint. -/
theorem over_setPlayer (hp : p ∈ F.players) (f : Player → Player) :
    (w.over F v).setPlayer p f = (w.setPlayer p f).over F v := by
  rw [World.setPlayer, over_player hp]
  simp only [World.over, World.setPlayer, update_piecewise hp]

theorem over_setSlot (hp : p ∈ F.players) (i : Slot) (c : CardRef) :
    (w.over F v).setSlot p i c = (w.setSlot p i c).over F v :=
  over_setPlayer hp _

theorem over_addCoins (hp : p ∈ F.players) (n : ℤ) :
    (w.over F v).addCoins p n = (w.addCoins p n).over F v :=
  over_setPlayer hp _

theorem over_setAI (hp : p ∈ F.players) (ai : AI) :
    (w.over F v).setAI p ai = (w.setAI p ai).over F v :=
  over_setPlayer hp _

open Classical in
theorem over_setRevealed (hc : c ∈ F.cards) (r : Bool) :
    (w.over F v).setRevealed c r = (w.setRevealed c r).over F v := by
  rw [World.setRevealed, over_card hc]
  simp only [World.over, World.setRevealed, update_piecewise hc]

theorem over_firstHidden (h : Hands F w) (hp : p ∈ F.players) :
    (w.over F v).firstHidden p = w.firstHidden p := by
  simp only [World.firstHidden, over_held h hp]

theorem over_revealCard (h : Hands F w) (hp : p ∈ F.players) :
    (w.over F v).revealCard p = (w.revealCard p).map (·.over F v) := by
  unfold World.revealCard
  refine bind_congr_map fun _ _ => ?_
  rw [over_firstHidden h hp]
  cases w.firstHidden p with
  | none => rfl
  | some i =>
      simp only [over_slot hp, over_setRevealed (h p hp i)]
      rfl

/-! ## The AI -/

section AI

variable (hseats : ∀ q ∈ w.players, q ∈ F.players) (h : Hands F w)

include hseats h

/-- A game looks the same to its AIs, whatever the rest of the heap is. -/
theorem over_sameView (hp : p ∈ w.players) :
    SameView p w (w.over F v) where
  players := rfl
  moveLog := rfl
  ai := by rw [over_player (hseats p hp)]
  own i := over_held h (hseats p hp) i
  name q hq := by rw [over_player (hseats q hq)]
  coins q hq := by rw [over_player (hseats q hq)]
  revealed q hq i := by rw [over_held h (hseats q hq)]
  role q hq i _ := by rw [over_held h (hseats q hq)]

theorem over_getPlayerMove (hp : p ∈ w.players) (i : AIInput) :
    getPlayerMove (w.over F v) p i =
      (getPlayerMove w p i).map fun r => (r.1, r.2.over F v) := by
  have hsame := over_sameView (v := v) hseats h hp
  have hai := hsame.ai
  cases hw : (w.player p).ai with
  | none =>
      rw [hw] at hai
      simp only [getPlayerMove, hw, hai]
      rfl
  | some ai =>
      rw [hw] at hai
      simp only [getPlayerMove, hw, hai, hsame.seat_self hp,
        hsame.changeMoveRate]
      refine bind_congr_map fun name _ => ?_
      simp only [hsame.chooseTarget hp]
      refine bind_congr_map fun m _ => ?_
      rw [over_setAI (hseats p hp)]
      rfl

theorem over_getChallengeOrAllow (hp : p ∈ w.players) (target : PlayerRef)
    (rand : UnitDraw) :
    getChallengeOrAllow (w.over F v) p target rand =
      (getChallengeOrAllow w p target rand).map
        fun r => (r.1, r.2.over F v) := by
  have hsame := over_sameView (v := v) hseats h hp
  have hai := hsame.ai
  cases hw : (w.player p).ai with
  | none =>
      rw [hw] at hai
      simp only [getChallengeOrAllow, hw, hai]
      rfl
  | some ai =>
      rw [hw] at hai
      simp only [getChallengeOrAllow, hw, hai, hsame.seat_self hp,
        hsame.adjustChallengeRate, over_moveLog]
      refine bind_congr_map fun last _ => ?_
      rw [over_setAI (hseats p hp)]
      rfl

end AI

end World

/-! ## The exchange and the effect of a move -/

/-- What belongs to a game belongs to its footprint. -/
structure Owns (F : Footprint) (s : State) : Prop where
  hands : Hands F s.world
  deck : ∃ cards : List CardRef, s.vc.cardDeck = cards.map some ∧
    ∀ c ∈ cards, c ∈ F.cards
  twoCards : ∀ two ∈ s.vc.twoCards, two.1 ∈ F.cards ∧ two.2 ∈ F.cards

/-- The players of a move belong to the footprint. -/
structure Move.Within (F : Footprint) (m : Move) : Prop where
  caller : m.caller ∈ F.players
  target : m.target ∈ F.players

/-- A step within the footprint that keeps the table and the fields of the
controller apart from the deck and the two drawn cards. -/
structure Stays (F : Footprint) (s s' : State) : Prop where
  owns : Owns F s'
  table : SameTable s.world s'.world
  moveLog : s'.world.moveLog = s.world.moveLog
  vc : s'.vc = { s.vc with
    cardDeck := s'.vc.cardDeck
    twoCards := s'.vc.twoCards }

namespace Stays

variable {F : Footprint} {s s₁ s₂ : State}

theorem refl (h : Owns F s) : Stays F s s :=
  ⟨h, .refl _, rfl, rfl⟩

theorem trans (h : Stays F s s₁) (h' : Stays F s₁ s₂) : Stays F s s₂ where
  owns := h'.owns
  table := h.table.trans h'.table
  moveLog := h'.moveLog.trans h.moveLog
  vc := by
    rw [h'.vc, h.vc]

theorem setSlot {p : PlayerRef} {c : CardRef} {two : CardRef × CardRef}
    (h : Owns F s) (i : Slot) (hc : c ∈ F.cards)
    (htwo : two.1 ∈ F.cards ∧ two.2 ∈ F.cards) :
    Stays F s { s with
      vc.twoCards := some two
      world := s.world.setSlot p i c } where
  owns := by
    refine ⟨fun q hq j => ?_, h.deck, ?_⟩
    · rw [World.setSlot_slot]
      split
      next => exact hc
      next => exact h.hands q hq j
    · rintro two' ⟨⟩
      exact htwo
  table := .setSlot ..
  moveLog := rfl
  vc := rfl

end Stays

section Turn

variable {F : Footprint} {v : World} {s s' : State} {p : PlayerRef}

@[simp] theorem over_world : (s.over F v).world = s.world.over F v := rfl

@[simp] theorem over_vc : (s.over F v).vc = s.vc := rfl

theorem over_applyExchange (huser : s.vc.user ∈ F.players) (c : CardRef)
    (n : ℕ) :
    applyExchange (s.over F v) c n =
      (applyExchange s c n).map (·.over F v) := by
  unfold applyExchange
  refine bind_congr_map fun two _ => ?_
  simp only [over_world, over_vc, over_slot huser, over_setSlot huser]
  split <;> rfl

theorem applyExchange_stays {c : CardRef} {n : ℕ} (h : Owns F s)
    (huser : s.vc.user ∈ F.players) (hc : c ∈ F.cards)
    (happly : applyExchange s c n = .ok s') : Stays F s s' := by
  rw [applyExchange, bind_eq_ok] at happly
  obtain ⟨two, htwo, happly⟩ := happly
  obtain ⟨hfirst, hsecond⟩ := h.twoCards two (orFault_eq_ok.mp htwo)
  have hslot := h.hands s.vc.user huser
  split at happly <;> cases happly
  case h_1 => exact .setSlot h .first hc ⟨hslot .first, hsecond⟩
  case h_2 => exact .setSlot h .first hc ⟨hfirst, hslot .first⟩
  case h_3 => exact .setSlot h .second hc ⟨hslot .second, hsecond⟩
  case h_4 => exact .setSlot h .second hc ⟨hfirst, hslot .second⟩
  case h_5 => exact .refl h

theorem over_answerDialog (huser : s.vc.user ∈ F.players) (d : Dialog)
    (a : ExchangeAnswer) :
    answerDialog (s.over F v) d a = (answerDialog s d a).map (·.over F v) := by
  cases a with
  | keep => rfl
  | first =>
      simp only [answerDialog, recognizeLongPressedGesture1,
        over_applyExchange huser]
      split
      next => rfl
      next => split <;> rfl
  | second =>
      simp only [answerDialog, recognizeLongPressedGesture2,
        over_applyExchange huser]
      split
      next => rfl
      next => split <;> rfl

theorem answerDialog_stays {d : Dialog} {a : ExchangeAnswer} (h : Owns F s)
    (huser : s.vc.user ∈ F.players)
    (htwo : d.twoCards.1 ∈ F.cards ∧ d.twoCards.2 ∈ F.cards)
    (hanswer : answerDialog s d a = .ok s') : Stays F s s' := by
  rcases answerDialog_cases s d a with heq | ⟨c, n, hc, heq⟩
  · rw [heq] at hanswer
    cases hanswer
    exact .refl h
  · rw [heq] at hanswer
    rcases hc with rfl | rfl
    · exact applyExchange_stays h huser htwo.1 hanswer
    · exact applyExchange_stays h huser htwo.2 hanswer

theorem over_offerExchange (h : Owns F s) (huser : s.vc.user ∈ F.players)
    (i : Slot) (n : ℕ) (a : ExchangeAnswer) :
    offerExchange (s.over F v) i n a =
      (offerExchange s i n a).map (·.over F v) := by
  unfold offerExchange
  simp only [over_world, over_vc, over_held h.hands huser]
  split
  next => exact bind_congr_map fun two _ => over_answerDialog huser _ a
  next => rfl

theorem offerExchange_stays {i : Slot} {n : ℕ} {a : ExchangeAnswer}
    (h : Owns F s) (huser : s.vc.user ∈ F.players)
    (hoffer : offerExchange s i n a = .ok s') : Stays F s s' := by
  unfold offerExchange at hoffer
  split at hoffer
  next =>
    rw [bind_eq_ok] at hoffer
    obtain ⟨two, htwo, hanswer⟩ := hoffer
    exact answerDialog_stays h huser
      (h.twoCards two (orFault_eq_ok.mp htwo)) hanswer
  next => cases hoffer; exact .refl h

theorem over_swapFirst (h : Owns F s) (hp : p ∈ F.players) :
    swapFirst (s.over F v) p = (swapFirst s p).map (·.over F v) := by
  unfold swapFirst
  simp only [over_world, over_vc, over_held h.hands hp, over_slot hp,
    over_setSlot hp]
  split
  next => exact bind_congr_map fun _ _ => rfl
  next => rfl

theorem over_swapSecond (h : Owns F s) (hp : p ∈ F.players) :
    swapSecond (s.over F v) p = (swapSecond s p).map (·.over F v) := by
  unfold swapSecond
  simp only [over_world, over_vc, over_held h.hands hp, over_slot hp,
    over_setSlot hp]
  split
  next => exact bind_congr_map fun _ _ => rfl
  next => rfl

theorem swapFirst_stays (h : Owns F s) (hp : p ∈ F.players)
    (hswap : swapFirst s p = .ok s') : Stays F s s' := by
  unfold swapFirst at hswap
  split at hswap
  next =>
    rw [bind_eq_ok] at hswap
    obtain ⟨two, htwo, hswap⟩ := hswap
    obtain ⟨hfirst, hsecond⟩ := h.twoCards two (orFault_eq_ok.mp htwo)
    cases hswap
    exact .setSlot h .first hfirst ⟨h.hands p hp .first, hsecond⟩
  next => cases hswap; exact .refl h

theorem swapSecond_stays (h : Owns F s) (hp : p ∈ F.players)
    (hswap : swapSecond s p = .ok s') : Stays F s s' := by
  unfold swapSecond at hswap
  split at hswap
  next =>
    rw [bind_eq_ok] at hswap
    obtain ⟨two, htwo, hswap⟩ := hswap
    obtain ⟨hfirst, hsecond⟩ := h.twoCards two (orFault_eq_ok.mp htwo)
    cases hswap
    exact .setSlot h .second hsecond ⟨hfirst, h.hands p hp .second⟩
  next => cases hswap; exact .refl h

theorem over_exchangeCards (h : Owns F s)
    (huser : (s.world.player p).name = s.world.username →
      s.vc.user ∈ F.players) (hp : p ∈ F.players) (i : ExchangeInput) :
    exchangeCards (s.over F v) p i =
      (exchangeCards s p i).map (·.over F v) := by
  unfold exchangeCards
  simp only [over_world, over_username, over_player hp]
  split
  next hname =>
    have hin := huser hname
    refine bind_map_congr (over_offerExchange h hin _ _ _) fun s₁ h₁ => ?_
    have hstays := offerExchange_stays h hin h₁
    exact over_offerExchange hstays.owns (hstays.vc ▸ hin) _ _ _
  next =>
    refine bind_map_congr (over_swapFirst h hp) fun s₁ h₁ => ?_
    exact over_swapSecond (swapFirst_stays h hp h₁).owns hp

theorem exchangeCards_stays {i : ExchangeInput} (h : Owns F s)
    (huser : (s.world.player p).name = s.world.username →
      s.vc.user ∈ F.players) (hp : p ∈ F.players)
    (hexchange : exchangeCards s p i = .ok s') : Stays F s s' := by
  unfold exchangeCards at hexchange
  split at hexchange <;> rw [bind_eq_ok] at hexchange <;>
    obtain ⟨s₁, h₁, h₂⟩ := hexchange
  next hname =>
    have hin := huser hname
    have hstays := offerExchange_stays h hin h₁
    exact hstays.trans
      (offerExchange_stays hstays.owns (hstays.vc ▸ hin) h₂)
  next =>
    have hstays := swapFirst_stays h hp h₁
    exact hstays.trans (swapSecond_stays hstays.owns hp h₂)

/-- The state after `give2Cards` owns the two cards. -/
theorem Owns.give2Cards {two : CardRef × CardRef} {cardDeck : CardDeck}
    {draw1 draw2 : ℕ} (h : Owns F s)
    (hgive : Coup.give2Cards s.vc.cardDeck draw1 draw2 =
      .ok (two, cardDeck)) :
    Owns F { s with vc.cardDeck := cardDeck, vc.twoCards := some two } := by
  obtain ⟨cards, hdeck, hcards⟩ := h.deck
  rw [hdeck] at hgive
  obtain ⟨cards', rfl, hperm⟩ := give2Cards_spec hgive
  have hmem : ∀ c ∈ two.1 :: two.2 :: cards', c ∈ F.cards :=
    fun c hc => hcards c (hperm.subset hc)
  refine ⟨h.hands, ⟨cards', rfl, fun c hc => hmem c (by simp [hc])⟩, ?_⟩
  rintro two' ⟨⟩
  exact ⟨hmem _ (by simp), hmem _ (by simp)⟩

theorem over_exchange (h : Owns F s)
    (huser : (s.world.player p).name = s.world.username →
      s.vc.user ∈ F.players) (hp : p ∈ F.players) (i : ExchangeInput) :
    exchange (s.over F v) p i = (exchange s p i).map (·.over F v) := by
  unfold exchange
  refine bind_congr_map fun r hgive => ?_
  have howns := h.give2Cards hgive
  refine bind_map_congr (over_exchangeCards howns huser hp i) fun s₁ _ => ?_
  refine bind_congr_map fun two _ => ?_
  exact bind_congr_map fun cardDeck _ => rfl

theorem exchange_stays {i : ExchangeInput} (h : Owns F s)
    (huser : (s.world.player p).name = s.world.username →
      s.vc.user ∈ F.players) (hp : p ∈ F.players)
    (hexchange : exchange s p i = .ok s') : Stays F s s' := by
  rw [exchange, bind_eq_ok] at hexchange
  obtain ⟨⟨two, cardDeck⟩, hgive, hexchange⟩ := hexchange
  simp only [bind_eq_ok] at hexchange
  obtain ⟨s₁, hcards, two', htwo, cardDeck', hback, hexchange⟩ := hexchange
  cases hexchange
  have howns := h.give2Cards hgive
  have hstays := exchangeCards_stays howns huser hp hcards
  obtain ⟨cards, hdeck, hin⟩ := hstays.owns.deck
  obtain ⟨hfirst, hsecond⟩ :=
    hstays.owns.twoCards two' (orFault_eq_ok.mp htwo)
  rw [hdeck] at hback
  obtain ⟨cards', rfl, hperm⟩ := get2CardsBackNShuffle_spec hback
  refine ⟨⟨hstays.owns.hands, ⟨cards', rfl, ?_⟩, hstays.owns.twoCards⟩,
    hstays.table, hstays.moveLog, ?_⟩
  · intro c hc
    have hmem := hperm.subset hc
    simp only [List.mem_cons] at hmem
    rcases hmem with rfl | rfl | hmem
    · exact hfirst
    · exact hsecond
    · exact hin c hmem
  · have hvc := hstays.vc
    simp only at hvc ⊢
    rw [hvc]

theorem Stays.world {w : World} (h : Owns F s)
    (hslot : ∀ q i, w.slot q i = s.world.slot q i)
    (htable : SameTable s.world w) (hlog : w.moveLog = s.world.moveLog) :
    Stays F s { s with world := w } where
  owns := ⟨fun q hq i => by rw [hslot]; exact h.hands q hq i, h.deck,
    h.twoCards⟩
  table := htable
  moveLog := hlog
  vc := rfl

theorem Stays.addCoins (h : Owns F s) (p : PlayerRef) (n : ℤ) :
    Stays F s { s with world := s.world.addCoins p n } :=
  .world h (fun _ _ => by simp) (.addCoins ..) rfl

theorem Stays.revealCard {w : World} (h : Owns F s)
    (hreveal : s.world.revealCard p = .ok w) :
    Stays F s { s with world := w } := by
  refine .world h (fun q i => ?_) (.revealCard hreveal)
    (World.revealCard_moveLog hreveal)
  rw [World.revealCard, bind_eq_ok] at hreveal
  obtain ⟨-, -, hreveal⟩ := hreveal
  split at hreveal <;> cases hreveal <;> rfl

/-- The user exchanges, and the dialogs offer the cards of `user`. -/
def Move.AsksUser (m : Move) (w : World) : Prop :=
  m.name = .exchange ∧ (w.player m.caller).name = w.username

instance (m : Move) (w : World) : Decidable (m.AsksUser w) :=
  inferInstanceAs (Decidable (_ ∧ _))

theorem over_actOnMove {m : Move} (h : Owns F s)
    (huser : m.AsksUser s.world → s.vc.user ∈ F.players) (hm : m.Within F)
    (i : ExchangeInput) :
    actOnMove (s.over F v) m i = (actOnMove s m i).map (·.over F v) := by
  have hpay : ∀ n, Hands F (s.world.addCoins m.caller n) :=
    fun n => (Stays.addCoins h m.caller n).owns.hands
  unfold actOnMove
  split
  case h_3 | h_5 =>
    simp only [over_world, over_addCoins hm.caller]
    exact bind_map_congr (over_revealCard (hpay _) hm.target) fun w _ => rfl
  case h_4 hname =>
    exact over_exchange h (fun hcaller => huser ⟨hname, hcaller⟩) hm.caller i
  case h_8 => rfl
  all_goals
    simp only [over_world, over_addCoins hm.caller, over_addCoins hm.target]
    rfl

theorem actOnMove_stays {m : Move} {i : ExchangeInput} (h : Owns F s)
    (huser : m.AsksUser s.world → s.vc.user ∈ F.players) (hm : m.Within F)
    (hact : actOnMove s m i = .ok s') : Stays F s s' := by
  unfold actOnMove at hact
  split at hact
  case h_3 | h_5 =>
    rw [bind_eq_ok] at hact
    obtain ⟨w, hreveal, hact⟩ := hact
    cases hact
    have hpay := Stays.addCoins h m.caller
    exact (hpay _).trans (Stays.revealCard (hpay _).owns hreveal)
  case h_4 hname =>
    exact exchange_stays h (fun hcaller => huser ⟨hname, hcaller⟩) hm.caller
      hact
  case h_6 =>
    cases hact
    exact (Stays.addCoins h m.target _).trans
      (Stays.addCoins (Stays.addCoins h m.target _).owns m.caller _)
  case h_8 => cases hact; exact .refl h
  all_goals
    cases hact
    exact .addCoins h _ _

/-! ## The won challenge -/

theorem over_showCard {w : World} (h : Hands F w) (hp : p ∈ F.players)
    (theCard : ℤ) :
    showCard (w.over F v) p theCard = (showCard w p theCard).over F v := by
  unfold showCard
  cases slotOf theCard with
  | none => rfl
  | some i => simp only [over_slot hp, over_setRevealed (h p hp i)]

theorem Stays.showCard (h : Owns F s) (p : PlayerRef) (theCard : ℤ) :
    Stays F s { s with world := Coup.showCard s.world p theCard } := by
  unfold Coup.showCard
  cases slotOf theCard with
  | none => exact .refl h
  | some i => exact .world h (fun _ _ => rfl) (.setRevealed ..) rfl

theorem over_showClaim {challenger : PlayerRef} (h : Owns F s)
    (hp : p ∈ F.players) (hc : challenger ∈ F.players) (theCard : ℤ)
    (draw : ℕ) :
    showClaim (s.over F v) p challenger theCard draw =
      (showClaim s p challenger theCard draw).map
        fun r => (r.1.over F v, r.2) := by
  unfold showClaim
  refine bind_map_congr (over_revealCard h.hands hc) fun w hreveal => ?_
  have hstays := Stays.revealCard h hreveal
  refine bind_congr_map fun r _ => ?_
  simp only [over_showCard hstays.owns.hands hp]
  rfl

theorem showClaim_stays {challenger : PlayerRef} {theCard : ℤ} {draw : ℕ}
    {newCard : CardRef} (h : Owns F s)
    (hshow : showClaim s p challenger theCard draw = .ok (s', newCard)) :
    Stays F s s' ∧ newCard ∈ F.cards := by
  rw [showClaim, bind_eq_ok] at hshow
  obtain ⟨w, hreveal, hshow⟩ := hshow
  rw [bind_eq_ok] at hshow
  obtain ⟨⟨newCard', cardDeck⟩, hgive, hshow⟩ := hshow
  cases hshow
  have hstays := Stays.revealCard h hreveal
  have hshown := hstays.trans (Stays.showCard hstays.owns p theCard)
  obtain ⟨cards, hdeck, hcards⟩ := h.deck
  rw [hdeck] at hgive
  obtain ⟨cards', rfl, hperm⟩ := giveACard_spec hgive
  refine ⟨⟨⟨hshown.owns.hands, ⟨cards', rfl, fun c hc => ?_⟩,
    hshown.owns.twoCards⟩, hshown.table, hshown.moveLog, rfl⟩, ?_⟩
  · exact hcards c (hperm.subset (List.mem_cons_of_mem _ hc))
  · exact hcards newCard (hperm.subset List.mem_cons_self)

theorem over_replaceClaim {newCard : CardRef} (h : Owns F s)
    (hp : p ∈ F.players) (hnew : newCard ∈ F.cards) (theCard : ℤ)
    (draws : List ℕ) :
    replaceClaim (s.over F v) p theCard newCard draws =
      (replaceClaim s p theCard newCard draws).map (·.over F v) := by
  unfold replaceClaim replaceCard
  cases slotOf theCard with
  | none =>
      simp only [get1CardBackNShuffle, over_world, over_setRevealed hnew]
      refine bind_map_congr (g := fun r => (r.1.over F v, r.2)) ?_
        fun r _ => rfl
      exact bind_congr_map fun cardDeck _ => rfl
  | some i =>
      simp only [get1CardBackNShuffle, over_world, over_setSlot hp,
        over_slot hp, over_setRevealed (h.hands p hp i)]
      refine bind_map_congr (g := fun r => (r.1.over F v, r.2)) ?_
        fun r _ => rfl
      exact bind_congr_map fun cardDeck _ => rfl

theorem replaceClaim_stays {newCard : CardRef} {theCard : ℤ}
    {draws : List ℕ} (h : Owns F s) (hp : p ∈ F.players)
    (hnew : newCard ∈ F.cards)
    (hreplace : replaceClaim s p theCard newCard draws = .ok s') :
    Stays F s s' := by
  unfold replaceClaim replaceCard at hreplace
  obtain ⟨cards, hdeck, hcards⟩ := h.deck
  cases hslot : slotOf theCard with
  | none =>
      simp only [hslot, bind_eq_ok] at hreplace
      obtain ⟨⟨w, cardDeck⟩, hback, hreplace⟩ := hreplace
      cases hreplace
      rw [hdeck] at hback
      obtain ⟨rfl, cards', rfl, hperm⟩ := get1CardBackNShuffle_spec hback
      have hcards' := List.forall_mem_cons.mpr ⟨hnew, hcards⟩
      exact ⟨⟨h.hands, ⟨cards', rfl, fun c hc => hcards' c (hperm.subset hc)⟩,
        h.twoCards⟩, .setRevealed .., rfl, rfl⟩
  | some i =>
      simp only [hslot, bind_eq_ok] at hreplace
      obtain ⟨⟨w, cardDeck⟩, hback, hreplace⟩ := hreplace
      cases hreplace
      rw [hdeck] at hback
      obtain ⟨rfl, cards', rfl, hperm⟩ := get1CardBackNShuffle_spec hback
      have hcards' := List.forall_mem_cons.mpr ⟨h.hands p hp i, hcards⟩
      refine ⟨⟨fun q hq j => ?_,
        ⟨cards', rfl, fun c hc => hcards' c (hperm.subset hc)⟩, h.twoCards⟩,
        (SameTable.setSlot ..).trans (.setRevealed ..), rfl, rfl⟩
      rw [World.setRevealed_slot, World.setSlot_slot]
      split
      next => exact hnew
      next => exact h.hands q hq j

end Turn

end Coup
