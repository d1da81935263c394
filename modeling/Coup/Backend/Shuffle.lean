import Coup.Backend.Deck

/-!
# Shuffling is a permutation and can always finish

`shuffle` and `makeDeck` place cards one by one into an array of placeholders,
and every placement keeps drawing until it hits one.  As many placeholders are
left as cards are still to be placed, so a placement never looks in an array
that is full.
-/

namespace Coup

open Coup.Support

/-! ## One placement -/

/-- One draw ends the placement in an array that has a placeholder. -/
theorem exists_hit {cardDeck : CardDeck} (h : 0 < placeholders cardDeck)
    (card : CardRef) :
    ∃ draw cardDeck', ∀ draws,
      placeCard cardDeck card (draw :: draws) = .ok (cardDeck', draws) := by
  have hmem : none ∈ cardDeck := List.count_pos_iff.mp h
  obtain ⟨num, hlt, hnum⟩ := List.getElem_of_mem hmem
  refine ⟨num, cardDeck.set num (some card), fun draws => ?_⟩
  have hindex : randomIndex cardDeck.length num = .ok num := by
    rw [randomIndex, if_neg (by omega), Nat.mod_eq_of_lt hlt]
  have hfree : cardDeck[num]? = some none := by
    rw [List.getElem?_eq_getElem hlt, hnum]
  rw [placeCard, hindex, bind_ok, if_pos hfree]
  rfl

/-- Whatever has been drawn, the placement can go on so that it ends, and it
leaves alone what comes after. -/
theorem placeCard_finishes {cardDeck : CardDeck}
    (h : 0 < placeholders cardDeck) (card : CardRef) (draws : List ℕ) :
    ∃ more cardDeck' draws', ∀ rest,
      placeCard cardDeck card (draws ++ (more ++ rest)) =
        .ok (cardDeck', draws' ++ rest) := by
  induction draws with
  | nil =>
      obtain ⟨draw, cardDeck', hhit⟩ := exists_hit h card
      exact ⟨[draw], cardDeck', [], hhit⟩
  | cons draw draws ih =>
      have hlength : cardDeck.length ≠ 0 := by
        intro hzero
        rw [List.length_eq_zero_iff.mp hzero] at h
        exact absurd h (by decide)
      have hindex : randomIndex cardDeck.length draw =
          .ok (draw % cardDeck.length) := by
        rw [randomIndex, if_neg hlength]
      by_cases hfree : cardDeck[draw % cardDeck.length]? = some none
      · refine ⟨[], cardDeck.set (draw % cardDeck.length) (some card), draws, ?_⟩
        intro rest
        rw [List.nil_append, List.cons_append, placeCard, hindex, bind_ok,
          if_pos hfree]
        rfl
      · obtain ⟨more, cardDeck', draws', hplace⟩ := ih
        refine ⟨more, cardDeck', draws', fun rest => ?_⟩
        rw [List.cons_append, placeCard, hindex, bind_ok, if_neg hfree]
        exact hplace rest

/-! ## The placements of a shuffle -/

/-- While the entries of `old` are placed into `newCardDeck`, `shuffleDeck`
starts to look in `cardDeck` for a slot for `card`: it has placed the entries
before it. -/
def LooksIn (newCardDeck old : CardDeck) (draws : List ℕ)
    (cardDeck : CardDeck) (card : CardRef) : Prop :=
  ∃ before after draws', old = before ++ some card :: after ∧
    shuffleInto newCardDeck before draws = .ok (cardDeck, draws')

/-- As many placeholders are left as there are entries still to be placed. -/
theorem LooksIn.placeholders_pos {newCardDeck old cardDeck : CardDeck}
    {draws : List ℕ} {card : CardRef}
    (h : LooksIn newCardDeck old draws cardDeck card)
    (hroom : old.length ≤ placeholders newCardDeck) :
    0 < placeholders cardDeck := by
  obtain ⟨before, after, draws', rfl, hbefore⟩ := h
  have hleft := (shuffleInto_spec hbefore).2
  rw [List.length_append, List.length_cons] at hroom
  omega

theorem shuffleInto_finishes {cards : List CardRef} {newCardDeck : CardDeck}
    (h : cards.length ≤ placeholders newCardDeck) (draws : List ℕ) :
    ∃ more cardDeck' draws', ∀ rest,
      shuffleInto newCardDeck (cards.map some) (draws ++ (more ++ rest)) =
        .ok (cardDeck', draws' ++ rest) := by
  induction cards generalizing newCardDeck draws with
  | nil => exact ⟨[], newCardDeck, draws, fun _ => rfl⟩
  | cons card cards ih =>
      rw [List.length_cons] at h
      have hpos : 0 < placeholders newCardDeck := by omega
      obtain ⟨more, placed, draws₁, hplace⟩ :=
        placeCard_finishes hpos card draws
      have hroom : cards.length ≤ placeholders placed := by
        have hfilled := (placeCard_spec (hplace [])).2
        omega
      obtain ⟨more', cardDeck', draws', hrest⟩ := ih hroom draws₁
      refine ⟨more ++ more', cardDeck', draws', fun rest => ?_⟩
      rw [List.map_cons, shuffleInto, orFault, bind_ok, shuffleDeck_one,
        List.append_assoc, hplace, bind_ok]
      exact hrest rest

/-- Entries that are not cards do not get past the forced cast. -/
theorem shuffleInto_cards {old newCardDeck cardDeck' : CardDeck}
    {draws draws' : List ℕ}
    (h : shuffleInto newCardDeck old draws = .ok (cardDeck', draws')) :
    ∃ cards : List CardRef, old = cards.map some := by
  induction old generalizing newCardDeck draws with
  | nil => exact ⟨[], rfl⟩
  | cons entry old ih =>
      rw [shuffleInto, bind_eq_ok] at h
      obtain ⟨card, hcard, h⟩ := h
      rw [orFault_eq_ok] at hcard
      rw [bind_eq_ok] at h
      obtain ⟨placed, -, h⟩ := h
      obtain ⟨cards, rfl⟩ := ih h
      exact ⟨card :: cards, by rw [hcard, List.map_cons]⟩

/-! ## Shuffling and making a deck -/

theorem shuffle_eq_ok {cardDeck deck' : CardDeck} {draws : List ℕ} :
    shuffle cardDeck draws = .ok deck' ↔ cardDeck ≠ [] ∧
      ∃ draws', shuffleInto (List.replicate cardDeck.length none) cardDeck
        draws = .ok (deck', draws') := by
  rw [shuffle]
  constructor
  · intro h
    split at h
    next => cases h
    next hne =>
      rw [bind_eq_ok] at h
      obtain ⟨⟨deck'', draws'⟩, hinto, h⟩ := h
      cases h
      exact ⟨hne, draws', hinto⟩
  · rintro ⟨hne, draws', hinto⟩
    rw [if_neg hne, hinto]
    rfl

/-- A shuffle only rearranges the deck, whatever is in it. -/
theorem shuffle_perm {cardDeck deck' : CardDeck} {draws : List ℕ}
    (h : shuffle cardDeck draws = .ok deck') :
    deck'.Perm cardDeck ∧ none ∉ deck' := by
  obtain ⟨-, draws', hinto⟩ := shuffle_eq_ok.mp h
  obtain ⟨cards, rfl⟩ := shuffleInto_cards hinto
  obtain ⟨cards', rfl, hperm⟩ := shuffle_spec h
  exact ⟨hperm.map some, by simp⟩

theorem makeDeck_perm {base : CardRef} {deck : CardDeck} {draws : List ℕ}
    (h : makeDeck base draws = .ok deck) :
    deck.Perm ((createdCards base).map some) ∧ none ∉ deck := by
  obtain ⟨cards, rfl, hperm⟩ := makeDeck_spec h
  exact ⟨hperm.map some, by simp⟩

theorem placeholders_replicate (n : ℕ) :
    placeholders (List.replicate n none) = n :=
  List.count_replicate_self ..

theorem shuffle_finishes {cards : List CardRef} (h : cards ≠ [])
    (draws : List ℕ) :
    ∃ more deck', shuffle (cards.map some) (draws ++ more) = .ok deck' := by
  have hroom : cards.length ≤
      placeholders (List.replicate (cards.map some).length none) := by
    rw [placeholders_replicate, List.length_map]
  obtain ⟨more, deck', draws', hinto⟩ := shuffleInto_finishes hroom draws
  have hdone := hinto []
  rw [List.append_nil] at hdone
  exact ⟨more, deck', shuffle_eq_ok.mpr ⟨by simpa using h, _, hdone⟩⟩

theorem makeDeck_finishes (base : CardRef) (draws : List ℕ) :
    ∃ more deck, makeDeck base (draws ++ more) = .ok deck := by
  have hmap : (placementOrder.map fun k => some (base + k)) =
      (placementOrder.map (base + ·)).map some := by simp
  have hroom : (placementOrder.map (base + ·)).length ≤
      placeholders (List.replicate 15 none) := by
    rw [placeholders_replicate, List.length_map]
    decide
  obtain ⟨more, deck, draws', hinto⟩ := shuffleInto_finishes hroom draws
  have hdone := hinto []
  rw [List.append_nil] at hdone
  refine ⟨more, deck, ?_⟩
  rw [makeDeck, hmap, hdone]
  rfl

/-- Placing a card is not doomed: the array has a placeholder, some stream
ends the loop, and so does some continuation of every stream. -/
structure HasRoom (cardDeck : CardDeck) (card : CardRef) : Prop where
  placeholder : none ∈ cardDeck
  returns : ∀ draws, ∃ more r,
    placeCard cardDeck card (draws ++ more) = .ok r

theorem hasRoom_of_placeholders {cardDeck : CardDeck}
    (h : 0 < placeholders cardDeck) (card : CardRef) :
    HasRoom cardDeck card where
  placeholder := List.count_pos_iff.mp h
  returns draws := by
    obtain ⟨more, cardDeck', draws', hplace⟩ :=
      placeCard_finishes h card draws
    have hdone := hplace []
    rw [List.append_nil] at hdone
    exact ⟨more, _, hdone⟩

/-- On every stream on which they return, `shuffle` leaves the entries of its
deck and `makeDeck` its fifteen cards, and no placeholder; on every stream,
each of their placements starts with room for its card; and every stream can be
continued so that they return. -/
theorem shuffles_are_permutations :
    (∀ cardDeck : CardDeck, cardDeck ≠ [] → ∀ draws,
      (∀ deck', shuffle cardDeck draws = .ok deck' →
        deck'.Perm cardDeck ∧ none ∉ deck') ∧
      ∀ newCardDeck card,
        LooksIn (List.replicate cardDeck.length none) cardDeck draws
          newCardDeck card → HasRoom newCardDeck card) ∧
    (∀ base draws,
      (∀ deck, makeDeck base draws = .ok deck →
        deck.Perm ((createdCards base).map some) ∧ none ∉ deck) ∧
      ∀ newCardDeck card,
        LooksIn (List.replicate 15 none)
          (placementOrder.map fun k => some (base + k)) draws
          newCardDeck card → HasRoom newCardDeck card) ∧
    (∀ cards : List CardRef, cards ≠ [] → ∀ draws, ∃ more deck',
      shuffle (cards.map some) (draws ++ more) = .ok deck') ∧
    ∀ base draws, ∃ more deck, makeDeck base (draws ++ more) = .ok deck := by
  refine ⟨?_, ?_, fun _ h => shuffle_finishes h, makeDeck_finishes⟩
  · intro cardDeck _ draws
    refine ⟨fun _ h => shuffle_perm h, fun newCardDeck card h => ?_⟩
    apply hasRoom_of_placeholders
    apply h.placeholders_pos
    rw [placeholders_replicate]
  · intro base draws
    refine ⟨fun _ h => makeDeck_perm h, fun newCardDeck card h => ?_⟩
    apply hasRoom_of_placeholders
    apply h.placeholders_pos
    rw [placeholders_replicate, List.length_map]
    decide

/-- The second card draws a taken slot first. -/
theorem shuffles_are_permutations_two :
    shuffle [some 3, some 5] [1, 1, 0] = .ok [some 5, some 3] ∧
      [some 5, some 3].Perm [some 3, some 5] ∧
      HasRoom [none, some 3] 5 := by
  have hshuffle : shuffle [some 3, some 5] [1, 1, 0] =
      .ok [some 5, some 3] := rfl
  have hlooks : LooksIn (List.replicate 2 none) [some 3, some 5] [1, 1, 0]
      [none, some 3] 5 := ⟨[some 3], [], [1, 0], rfl, rfl⟩
  obtain ⟨hperm, hroom⟩ :=
    shuffles_are_permutations.1 [some 3, some 5] (by simp) [1, 1, 0]
  exact ⟨hshuffle, (hperm _ hshuffle).1, hroom _ _ hlooks⟩

end Coup
