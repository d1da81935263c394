import Coup.Support.Run
import Coup.Backend.Card
import Mathlib.Data.List.Nodup
import Mathlib.Data.List.Perm.Basic
import Mathlib.Data.List.ReduceOption

/-!
# The deck

`cardDeck` is an array of `Any` whose entries are cards or the placeholder
integer `0`; here an entry is `some card` or `none`.  `Int.random(in: 0...k)`
is a supplied draw reduced modulo `k + 1`, so every stream of natural numbers
is a possible stream of random indexes and every index is possible.  The
rejection loop of `shuffleDeck` consumes draws until one hits a placeholder.
-/

namespace Coup

open Coup.Support

abbrev CardDeck := List (Option CardRef)

/-- `Int.random(in: 0...(count - 1))`, which traps when `count` is zero. -/
def randomIndex (count draw : ℕ) : Except Fault ℕ :=
  if count = 0 then .error .trap else .ok (draw % count)

/-! ## Shuffling through placeholders -/

/-- The inner `while(true)` of `shuffleDeck`: try random positions until a
placeholder is found and put the card there. -/
def placeCard (cardDeck : CardDeck) (card : CardRef) :
    List ℕ → Except Fault (CardDeck × List ℕ)
  | [] => if cardDeck = [] then .error .trap else .error .spinning
  | draw :: draws => do
      let num ← randomIndex cardDeck.length draw
      if cardDeck[num]? = some none then
        pure (cardDeck.set num (some card), draws)
      else
        placeCard cardDeck card draws

/-- `shuffleDeck(cardDeck:card:count:)`; the outer loop runs `count` times. -/
def shuffleDeck (cardDeck : CardDeck) (card : CardRef) :
    ℕ → List ℕ → Except Fault (CardDeck × List ℕ)
  | 0, draws => .ok (cardDeck, draws)
  | count + 1, draws => do
      let (cardDeck, draws) ← placeCard cardDeck card draws
      shuffleDeck cardDeck card count draws

/-- The loop of `shuffle`: place every entry of the old deck, each forced to
be a card, into the new one. -/
def shuffleInto (newCardDeck : CardDeck) :
    CardDeck → List ℕ → Except Fault (CardDeck × List ℕ)
  | [], draws => .ok (newCardDeck, draws)
  | card :: rest, draws => do
      let card ← orFault .trap card
      let (newCardDeck, draws) ← shuffleDeck newCardDeck card 1 draws
      shuffleInto newCardDeck rest draws

def shuffle (cardDeck : CardDeck) (draws : List ℕ) :
    Except Fault CardDeck := do
  if cardDeck = [] then .error .trap
  let (newCardDeck, _) ←
    shuffleInto (List.replicate cardDeck.length none) cardDeck draws
  pure newCardDeck

/-! ## Making, dealing and taking back -/

/-- The roles of the fifteen objects in the order `makeDeck` creates them. -/
def createdRoles : List Role :=
  [.assassin, .assassin, .assassin, .ambassador, .ambassador, .ambassador,
    .captain, .captain, .captain, .contessa, .contessa, .contessa,
    .duke, .duke, .duke]

/-- The references of the fifteen objects, allocated from `base` on. -/
def createdCards (base : CardRef) : List CardRef :=
  (List.range 15).map (base + ·)

/-- The order in which `makeDeck` places the objects it created. -/
def placementOrder : List ℕ :=
  [0, 3, 6, 9, 12, 1, 4, 7, 10, 13, 2, 5, 8, 11, 14]

/-- The calls of `shuffleDeck` in `makeDeck`. -/
def makeDeck (base : CardRef) (draws : List ℕ) : Except Fault CardDeck := do
  let (cardDeck, _) ← shuffleInto (List.replicate 15 none)
    (placementOrder.map fun k => some (base + k)) draws
  pure cardDeck

/-- The heap after the initialisers of the fifteen cards. -/
def World.createCards (w : World) (base : CardRef) : World :=
  { w with
    card := fun c =>
      if base ≤ c then
        match createdRoles[c - base]? with
        | some role => ⟨role, false⟩
        | none => w.card c
      else w.card c }

def giveACard (cardDeck : CardDeck) (draw : ℕ) :
    Except Fault (CardRef × CardDeck) := do
  let num ← randomIndex cardDeck.length draw
  let card ← orFault .trap cardDeck[num]?
  let card ← orFault .trap card
  pure (card, cardDeck.eraseIdx num)

/-- `assign2Cards`; every `giveACard` uses up one draw. -/
def assign2Cards (w : World) (cardDeck : CardDeck) :
    List PlayerRef → List ℕ → Except Fault (World × CardDeck)
  | [], _ => .ok (w, cardDeck)
  | p :: players, draws => do
      let (card1, cardDeck) ← giveACard cardDeck (draws.getD 0 0)
      let (card2, cardDeck) ← giveACard cardDeck (draws.getD 1 0)
      let w := (w.setSlot p .first card1).setSlot p .second card2
      assign2Cards w cardDeck players (draws.drop 2)

def give2Cards (cardDeck : CardDeck) (draw1 draw2 : ℕ) :
    Except Fault ((CardRef × CardRef) × CardDeck) := do
  let (card1, cardDeck) ← giveACard cardDeck draw1
  let (card2, cardDeck) ← giveACard cardDeck draw2
  pure ((card1, card2), cardDeck)

def get2CardsBackNShuffle (cardDeck : CardDeck) (twoCards : CardRef × CardRef)
    (draws : List ℕ) : Except Fault CardDeck :=
  shuffle (cardDeck ++ [some twoCards.1, some twoCards.2]) draws

def get1CardBackNShuffle (w : World) (cardDeck : CardDeck) (oneCard : CardRef)
    (draws : List ℕ) : Except Fault (World × CardDeck) := do
  let w := w.setRevealed oneCard false
  let cardDeck ← shuffle (cardDeck ++ [some oneCard]) draws
  pure (w, cardDeck)

/-! ## What the operations do to the cards of a deck without placeholders -/

/-- The number of placeholder entries. -/
def placeholders (cardDeck : CardDeck) : ℕ := cardDeck.count none

/-- The cards of a deck, in order. -/
def cardsOf (cardDeck : CardDeck) : List CardRef := cardDeck.reduceOption

theorem reduceOption_set_perm {cardDeck : CardDeck} {num : ℕ} {card : CardRef}
    (h : cardDeck[num]? = some none) :
    (cardsOf (cardDeck.set num (some card))).Perm
      (card :: cardsOf cardDeck) := by
  induction cardDeck generalizing num with
  | nil => simp at h
  | cons c cs ih =>
      cases num with
      | zero =>
          obtain rfl : c = none := by simpa using h
          simp [cardsOf]
      | succ num =>
          have hrest := ih (by simpa using h)
          cases c with
          | none => simpa [cardsOf] using hrest
          | some c =>
              have hswap := (hrest.cons c).trans (List.Perm.swap card c _)
              simpa [cardsOf] using hswap

theorem placeholders_set {cardDeck : CardDeck} {num : ℕ} {card : CardRef}
    (h : cardDeck[num]? = some none) :
    placeholders (cardDeck.set num (some card)) + 1 =
      placeholders cardDeck := by
  induction cardDeck generalizing num with
  | nil => simp at h
  | cons c cs ih =>
      cases num with
      | zero =>
          obtain rfl : c = none := by simpa using h
          simp [placeholders]
      | succ num =>
          have hnone : cs[num]? = some none := by simpa using h
          have hrest := ih hnone
          simp only [placeholders, List.set_cons_succ, List.count_cons] at hrest ⊢
          omega

/-- One placement fills exactly one placeholder with the card. -/
theorem placeCard_spec {cardDeck cardDeck' : CardDeck} {card : CardRef}
    {draws draws' : List ℕ}
    (h : placeCard cardDeck card draws = .ok (cardDeck', draws')) :
    (cardsOf cardDeck').Perm (card :: cardsOf cardDeck) ∧
      placeholders cardDeck' + 1 = placeholders cardDeck := by
  induction draws with
  | nil =>
      simp only [placeCard] at h
      split at h <;> cases h
  | cons draw draws ih =>
      rw [placeCard, bind_eq_ok] at h
      obtain ⟨num, -, h⟩ := h
      split at h
      next hfree =>
        cases h
        exact ⟨reduceOption_set_perm hfree, placeholders_set hfree⟩
      next => exact ih h

theorem shuffleDeck_one {cardDeck : CardDeck} {card : CardRef}
    {draws : List ℕ} :
    shuffleDeck cardDeck card 1 draws = placeCard cardDeck card draws := by
  unfold shuffleDeck
  cases placeCard cardDeck card draws <;> rfl

theorem shuffleInto_spec {old newDeck newDeck' : CardDeck}
    {draws draws' : List ℕ}
    (h : shuffleInto newDeck old draws = .ok (newDeck', draws')) :
    (cardsOf newDeck').Perm (cardsOf old ++ cardsOf newDeck) ∧
      placeholders newDeck' + old.length = placeholders newDeck := by
  induction old generalizing newDeck draws with
  | nil =>
      cases h
      exact ⟨.refl _, rfl⟩
  | cons card rest ih =>
      rw [shuffleInto, bind_eq_ok] at h
      obtain ⟨card', hcard, h⟩ := h
      rw [orFault_eq_ok] at hcard
      rw [bind_eq_ok] at h
      obtain ⟨⟨mid, draws₁⟩, hplace, h⟩ := h
      rw [shuffleDeck_one] at hplace
      obtain ⟨hperm, hfree⟩ := placeCard_spec hplace
      obtain ⟨hperm', hfree'⟩ := ih h
      subst hcard
      constructor
      · calc
          (cardsOf newDeck').Perm (cardsOf rest ++ cardsOf mid) := hperm'
          List.Perm _ (cardsOf rest ++ card' :: cardsOf newDeck) :=
            hperm.append_left _
          List.Perm _ (card' :: (cardsOf rest ++ cardsOf newDeck)) :=
            List.perm_middle
          List.Perm _ (cardsOf (some card' :: rest) ++ cardsOf newDeck) := by
            simp [cardsOf]
      · simp only [List.length_cons]
        omega

theorem cardsOf_map_some (cards : List CardRef) :
    cardsOf (cards.map some) = cards := by
  induction cards with
  | nil => rfl
  | cons c cs ih => simpa [cardsOf] using ih

theorem eq_map_some_of_placeholders_eq_zero {cardDeck : CardDeck}
    (h : placeholders cardDeck = 0) :
    cardDeck = (cardsOf cardDeck).map some := by
  induction cardDeck with
  | nil => rfl
  | cons c cs ih =>
      cases c with
      | none => simp [placeholders] at h
      | some c =>
          have hcs : placeholders cs = 0 := by simpa [placeholders] using h
          have htail := ih hcs
          simp only [cardsOf] at htail ⊢
          rw [List.reduceOption_cons_of_some, List.map_cons, ← htail]

theorem shuffleInto_replicate (cards : List CardRef) {deck' : CardDeck}
    {draws draws' : List ℕ}
    (h : shuffleInto (List.replicate cards.length none) (cards.map some) draws =
      .ok (deck', draws')) :
    ∃ cards' : List CardRef, deck' = cards'.map some ∧ cards'.Perm cards := by
  obtain ⟨hperm, hfree⟩ := shuffleInto_spec h
  have hzero : placeholders deck' = 0 := by
    simp only [placeholders, List.length_map, List.count_replicate_self] at hfree ⊢
    omega
  refine ⟨cardsOf deck', eq_map_some_of_placeholders_eq_zero hzero, ?_⟩
  have hnone : cardsOf (List.replicate cards.length none) = [] := by
    simp [cardsOf]
  rw [hnone, List.append_nil, cardsOf_map_some] at hperm
  exact hperm

/-- Shuffling a deck of cards gives a deck of the same cards. -/
theorem shuffle_spec {cards : List CardRef} {deck' : CardDeck}
    {draws : List ℕ} (h : shuffle (cards.map some) draws = .ok deck') :
    ∃ cards' : List CardRef, deck' = cards'.map some ∧ cards'.Perm cards := by
  rw [shuffle] at h
  split at h
  next => cases h
  next =>
    rw [bind_eq_ok] at h
    obtain ⟨⟨deck'', draws'⟩, hinto, h⟩ := h
    cases h
    rw [List.length_map] at hinto
    exact shuffleInto_replicate _ hinto

theorem giveACard_spec {cards : List CardRef} {card : CardRef}
    {deck' : CardDeck} {draw : ℕ}
    (h : giveACard (cards.map some) draw = .ok (card, deck')) :
    ∃ cards' : List CardRef, deck' = cards'.map some ∧ (card :: cards').Perm cards := by
  rw [giveACard, bind_eq_ok] at h
  obtain ⟨num, -, h⟩ := h
  rw [bind_eq_ok] at h
  obtain ⟨entry, hentry, h⟩ := h
  rw [orFault_eq_ok] at hentry
  rw [bind_eq_ok] at h
  obtain ⟨card', hcard, h⟩ := h
  rw [orFault_eq_ok] at hcard
  cases h
  subst hcard
  have hget : cards[num]? = some card := by
    simpa [List.getElem?_map] using hentry
  obtain ⟨hlt, rfl⟩ := List.getElem?_eq_some_iff.mp hget
  refine ⟨cards.eraseIdx num, ?_, List.getElem_cons_eraseIdx_perm hlt⟩
  exact List.eraseIdx_map ..

theorem give2Cards_spec {cards : List CardRef} {two : CardRef × CardRef}
    {deck' : CardDeck} {draw1 draw2 : ℕ}
    (h : give2Cards (cards.map some) draw1 draw2 = .ok (two, deck')) :
    ∃ cards' : List CardRef, deck' = cards'.map some ∧
      (two.1 :: two.2 :: cards').Perm cards := by
  rw [give2Cards, bind_eq_ok] at h
  obtain ⟨⟨card1, deck₁⟩, hfirst, h⟩ := h
  obtain ⟨cards₁, rfl, hperm₁⟩ := giveACard_spec hfirst
  rw [bind_eq_ok] at h
  obtain ⟨⟨card2, deck₂⟩, hsecond, h⟩ := h
  obtain ⟨cards₂, rfl, hperm₂⟩ := giveACard_spec hsecond
  cases h
  exact ⟨cards₂, rfl, (hperm₂.cons card1).trans hperm₁⟩

theorem get2CardsBackNShuffle_spec {cards : List CardRef}
    {two : CardRef × CardRef} {deck' : CardDeck} {draws : List ℕ}
    (h : get2CardsBackNShuffle (cards.map some) two draws = .ok deck') :
    ∃ cards' : List CardRef, deck' = cards'.map some ∧
      cards'.Perm (two.1 :: two.2 :: cards) := by
  have hback : cards.map some ++ [some two.1, some two.2] =
      (cards ++ [two.1, two.2]).map some := by simp
  rw [get2CardsBackNShuffle, hback] at h
  obtain ⟨cards', rfl, hperm⟩ := shuffle_spec h
  exact ⟨cards', rfl, hperm.trans List.perm_append_comm⟩

theorem get1CardBackNShuffle_spec {w w' : World} {cards : List CardRef}
    {card : CardRef} {deck' : CardDeck} {draws : List ℕ}
    (h : get1CardBackNShuffle w (cards.map some) card draws =
      .ok (w', deck')) :
    w' = w.setRevealed card false ∧
      ∃ cards' : List CardRef, deck' = cards'.map some ∧ cards'.Perm (card :: cards) := by
  rw [get1CardBackNShuffle, bind_eq_ok] at h
  obtain ⟨deck₁, hshuffle, h⟩ := h
  have hback : cards.map some ++ [some card] = (cards ++ [card]).map some := by
    simp
  rw [hback] at hshuffle
  obtain ⟨cards', rfl, hperm⟩ := shuffle_spec hshuffle
  cases h
  exact ⟨rfl, cards', rfl, hperm.trans List.perm_append_comm⟩

theorem makeDeck_spec {base : CardRef} {deck : CardDeck} {draws : List ℕ}
    (h : makeDeck base draws = .ok deck) :
    ∃ cards : List CardRef, deck = cards.map some ∧ cards.Perm (createdCards base) := by
  rw [makeDeck, bind_eq_ok] at h
  obtain ⟨⟨deck', draws'⟩, hinto, h⟩ := h
  cases h
  have hmap : (placementOrder.map fun k => some (base + k)) =
      (placementOrder.map (base + ·)).map some := by simp
  rw [hmap] at hinto
  obtain ⟨cards, rfl, hperm⟩ :=
    shuffleInto_replicate (placementOrder.map (base + ·)) hinto
  refine ⟨cards, rfl, hperm.trans ?_⟩
  have horder : placementOrder.Perm (List.range 15) := by decide
  exact horder.map _

theorem createdCards_nodup (base : CardRef) : (createdCards base).Nodup :=
  List.Nodup.map (fun _ _ h => Nat.add_left_cancel h) List.nodup_range

/-! ## Drawing and shuffling without a trap -/

section Trap

variable {cards : List CardRef} {deck : CardDeck} {draws : List ℕ}

theorem avoids_randomIndex {count draw : ℕ} (h : count ≠ 0) :
    Avoids .trap (randomIndex count draw) := by
  rw [randomIndex, if_neg h]
  exact avoids_ok _

theorem avoids_placeCard (h : deck ≠ []) (card : CardRef) :
    Avoids .trap (placeCard deck card draws) := by
  induction draws with
  | nil =>
      rw [placeCard, if_neg h]
      exact avoids_error (by decide)
  | cons draw draws ih =>
      rw [placeCard]
      apply (avoids_randomIndex (by simpa using h)).bind
      intro num _
      exact .ite (fun _ => avoids_ok _) fun _ => ih

theorem avoids_shuffleInto (h : deck ≠ []) :
    Avoids .trap (shuffleInto deck (cards.map some) draws) := by
  induction cards generalizing deck draws with
  | nil => exact avoids_ok _
  | cons card cards ih =>
      rw [List.map_cons, shuffleInto, orFault, bind_ok, shuffleDeck_one]
      refine (avoids_placeCard h card).bind ?_
      rintro ⟨deck', draws'⟩ hplace
      apply ih
      rintro rfl
      have hlength := (placeCard_spec hplace).1.length_eq
      simp [cardsOf] at hlength

/-- A deck of cards can be shuffled exactly if it is not empty. -/
theorem avoids_shuffle_iff :
    Avoids .trap (shuffle (cards.map some) draws) ↔ cards ≠ [] := by
  refine ⟨fun h => ?_, fun h => ?_⟩
  · rintro rfl
    exact h rfl
  have hne : cards.map some ≠ [] := by simpa using h
  rw [shuffle, if_neg hne]
  refine (avoids_shuffleInto ?_).bind fun _ _ => avoids_ok _
  simpa using h

/-- A card can be drawn from a deck of cards exactly if it is not empty. -/
theorem avoids_giveACard_iff (draw : ℕ) :
    Avoids .trap (giveACard (cards.map some) draw) ↔ cards ≠ [] := by
  refine ⟨fun h => ?_, fun h => ?_⟩
  · rintro rfl
    exact h rfl
  have hpos : 0 < cards.length := List.length_pos_iff.mpr h
  rw [giveACard]
  apply (avoids_randomIndex (by simpa using h)).bind
  intro num hnum
  have hlt : num < cards.length := by
    rw [randomIndex, List.length_map, if_neg hpos.ne'] at hnum
    cases hnum
    exact Nat.mod_lt _ hpos
  refine (avoids_getElem? (by simpa using hlt)).bind fun entry hentry => ?_
  rw [orFault_eq_ok, List.getElem?_map, List.getElem?_eq_getElem hlt] at hentry
  cases hentry
  exact (avoids_orFault (by simp)).bind fun _ _ => avoids_ok _

/-- Two cards can be drawn exactly if there are two. -/
theorem avoids_give2Cards_iff (draw1 draw2 : ℕ) :
    Avoids .trap (give2Cards (cards.map some) draw1 draw2) ↔
      2 ≤ cards.length := by
  rw [give2Cards]
  constructor
  · intro h
    by_contra hfew
    have hcards : cards = [] ∨ ∃ card, cards = [card] := by
      rcases cards with _ | ⟨card, _ | ⟨card', cards⟩⟩
      · exact Or.inl rfl
      · exact Or.inr ⟨card, rfl⟩
      · simp at hfew
    rcases hcards with rfl | ⟨card, rfl⟩
    · exact h rfl
    · apply h
      have hdraw : giveACard ([card].map some) draw1 = .ok (card, []) := by
        simp [giveACard, randomIndex, orFault, bind_ok, Nat.mod_one]
      rw [hdraw]
      rfl
  · intro h
    have hfirst : cards ≠ [] := by
      rintro rfl
      simp at h
    refine ((avoids_giveACard_iff draw1).mpr hfirst).bind ?_
    rintro ⟨card1, deck₁⟩ hdraw
    obtain ⟨cards₁, rfl, hperm⟩ := giveACard_spec hdraw
    have hsecond : cards₁ ≠ [] := by
      rintro rfl
      have hlength := hperm.length_eq
      simp at hlength
      omega
    exact ((avoids_giveACard_iff draw2).mpr hsecond).bind
      fun _ _ => avoids_ok _

theorem avoids_get2CardsBackNShuffle (two : CardRef × CardRef) :
    Avoids .trap (get2CardsBackNShuffle (cards.map some) two draws) := by
  have hback : cards.map some ++ [some two.1, some two.2] =
      (cards ++ [two.1, two.2]).map some := by simp
  rw [get2CardsBackNShuffle, hback]
  exact avoids_shuffle_iff.mpr (by simp)

theorem avoids_get1CardBackNShuffle (w : World) (card : CardRef) :
    Avoids .trap (get1CardBackNShuffle w (cards.map some) card draws) := by
  have hback : cards.map some ++ [some card] = (cards ++ [card]).map some := by
    simp
  rw [get1CardBackNShuffle, hback]
  exact (avoids_shuffle_iff.mpr (by simp)).bind fun _ _ => avoids_ok _

theorem avoids_makeDeck (base : CardRef) :
    Avoids .trap (makeDeck base draws) := by
  have hmap : (placementOrder.map fun k => some (base + k)) =
      (placementOrder.map (base + ·)).map some := by simp
  rw [makeDeck, hmap]
  exact (avoids_shuffleInto (by simp)).bind fun _ _ => avoids_ok _

/-- Everybody gets two cards if there are enough. -/
theorem avoids_assign2Cards {w : World} {seats : List PlayerRef}
    (h : 2 * seats.length ≤ cards.length) :
    Avoids .trap (assign2Cards w (cards.map some) seats draws) := by
  induction seats generalizing w cards draws with
  | nil => exact avoids_ok _
  | cons p seats ih =>
      rw [List.length_cons] at h
      have hfirst : cards ≠ [] := by
        rintro rfl
        simp at h
      rw [assign2Cards]
      refine ((avoids_giveACard_iff _).mpr hfirst).bind ?_
      rintro ⟨card1, deck₁⟩ hdraw₁
      obtain ⟨cards₁, rfl, hperm₁⟩ := giveACard_spec hdraw₁
      have hlength₁ := hperm₁.length_eq
      rw [List.length_cons] at hlength₁
      have hsecond : cards₁ ≠ [] := by
        rintro rfl
        simp at hlength₁
        omega
      refine ((avoids_giveACard_iff _).mpr hsecond).bind ?_
      rintro ⟨card2, deck₂⟩ hdraw₂
      obtain ⟨cards₂, rfl, hperm₂⟩ := giveACard_spec hdraw₂
      have hlength₂ := hperm₂.length_eq
      rw [List.length_cons] at hlength₂
      exact ih (by omega)

end Trap

end Coup
