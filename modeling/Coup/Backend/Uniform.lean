import Coup.Backend.AI
import Coup.Backend.Shuffle
import Coup.Support.Draws

/-!
# Uniform decks, deals and targets

With independent uniform draws, `shuffle` and `makeDeck` leave every
arrangement of their cards with the same probability, and a target loop of
`getPlayerMove` finds every acceptable seat with the same probability.  A deal
takes one draw a card, each below the number of cards that are left, and every
choice of hands is dealt by exactly one sequence of such draws.
-/

namespace Coup

open Coup.Support
open scoped ENNReal

/-! ## One placement -/

/-- The array that a draw leaves if it hits a placeholder. -/
def hit (cardDeck : CardDeck) (card : CardRef) (draw : ℕ) : Option CardDeck :=
  if cardDeck[draw % cardDeck.length]? = some none then
    some (cardDeck.set (draw % cardDeck.length) (some card))
  else none

theorem placeCard_eq_retry {cardDeck : CardDeck} (h : cardDeck ≠ [])
    (card : CardRef) :
    placeCard cardDeck card = retry .spinning (hit cardDeck card) := by
  funext draws
  induction draws with
  | nil => rw [placeCard, if_neg h, retry]
  | cons draw draws ih =>
      have hindex : randomIndex cardDeck.length draw =
          .ok (draw % cardDeck.length) := by
        rw [randomIndex, if_neg (by simpa using h)]
      rw [placeCard, hindex, bind_ok, retry, hit]
      split
      next => rfl
      next => exact ih

theorem consumes_placeCard (cardDeck : CardDeck) (card : CardRef) :
    Consumes (placeCard cardDeck card) := by
  by_cases h : cardDeck = []
  · subst h
    rintro (_ | ⟨draw, draws⟩) a rest hplace
    · cases hplace
    · cases hplace
  · rw [placeCard_eq_retry h]
    exact consumes_retry _ _

theorem consumes_shuffleInto (newCardDeck cardDeck : CardDeck) :
    Consumes (shuffleInto newCardDeck cardDeck) := by
  induction cardDeck generalizing newCardDeck with
  | nil => exact consumes_pure newCardDeck
  | cons entry rest ih =>
      cases entry with
      | none =>
          intro draws a rest' h
          cases h
      | some card =>
          have hbind := (consumes_placeCard newCardDeck card).bind ih
          intro draws a rest' h
          simp only [shuffleInto, orFault, bind_ok, shuffleDeck_one] at h ⊢
          exact hbind draws a rest' h

theorem favourable_hit (cardDeck : CardDeck) (card : CardRef) :
    favourable cardDeck.length (fun d => (hit cardDeck card d).isSome) =
      placeholders cardDeck := by
  rw [placeholders, List.count, ← favourable_any]
  apply congrArg Finset.card
  apply Finset.filter_congr
  intro d hd
  have hlt := Finset.mem_range.mp hd
  rw [hit, Nat.mod_eq_of_lt hlt, List.getElem?_eq_getElem hlt]
  split
  next h => simpa using h
  next h => simpa using h

/-- A hit changes one placeholder. -/
theorem hit_eq_some {cardDeck cardDeck' : CardDeck} {card : CardRef} {d : ℕ} :
    hit cardDeck card d = some cardDeck' ↔
      cardDeck[d % cardDeck.length]? = some none ∧
        cardDeck.set (d % cardDeck.length) (some card) = cardDeck' := by
  rw [hit]
  split
  next h => simp [h]
  next h => simp [h]

/-- A card lands in every placeholder with the same probability. -/
theorem law_placeCard {cardDeck : CardDeck} (card : CardRef) {i : ℕ}
    (h : cardDeck[i]? = some none) :
    law (uniform cardDeck.length) (value (placeCard cardDeck card))
        (cardDeck.set i (some card)) = (placeholders cardDeck : ℝ≥0∞)⁻¹ := by
  obtain ⟨hlt, hi⟩ := List.getElem?_eq_some_iff.mp h
  have hone : favourable cardDeck.length
      (fun d => hit cardDeck card d = some (cardDeck.set i (some card))) =
        1 := by
    rw [favourable, Finset.card_eq_one]
    refine ⟨i, Finset.ext fun d => ?_⟩
    rw [Finset.mem_filter, Finset.mem_range, Finset.mem_singleton, hit_eq_some]
    constructor
    · rintro ⟨hd, hfree, hset⟩
      rw [Nat.mod_eq_of_lt hd] at hfree hset
      by_contra hne
      have hat : (cardDeck.set d (some card))[i]? = some (some card) := by
        rw [hset, List.getElem?_set_self hlt]
      rw [List.getElem?_set_ne hne, h] at hat
      cases hat
    · rintro rfl
      rw [Nat.mod_eq_of_lt hlt]
      exact ⟨hlt, h, rfl⟩
  have hne : cardDeck ≠ [] := by
    rintro rfl
    simp at h
  rw [placeCard_eq_retry hne, law_retry_uniform, hone, favourable_hit,
    Nat.cast_one, one_div]

/-! ## A whole shuffle -/

theorem placeCard_keeps {cardDeck cardDeck' : CardDeck} {card c : CardRef}
    {draws draws' : List ℕ} {i : ℕ}
    (h : placeCard cardDeck card draws = .ok (cardDeck', draws'))
    (hi : cardDeck[i]? = some (some c)) : cardDeck'[i]? = some (some c) := by
  have hne : cardDeck ≠ [] := by
    rintro rfl
    simp at hi
  rw [placeCard_eq_retry hne, retry_eq_ok] at h
  obtain ⟨refused, d, -, -, hhit⟩ := h
  obtain ⟨hfree, rfl⟩ := hit_eq_some.mp hhit
  rw [List.getElem?_set_ne, hi]
  rintro rfl
  rw [hfree] at hi
  cases hi

/-- Cards that were placed stay where they are. -/
theorem shuffleInto_keeps {newCardDeck cardDeck cardDeck' : CardDeck}
    {c : CardRef} {draws draws' : List ℕ} {i : ℕ}
    (h : shuffleInto newCardDeck cardDeck draws = .ok (cardDeck', draws'))
    (hi : newCardDeck[i]? = some (some c)) : cardDeck'[i]? = some (some c) := by
  induction cardDeck generalizing newCardDeck draws with
  | nil =>
      cases h
      exact hi
  | cons entry rest ih =>
      rw [shuffleInto, bind_eq_ok] at h
      obtain ⟨card, -, h⟩ := h
      obtain ⟨⟨mid, draws₁⟩, hplace, h⟩ := bind_eq_ok.mp h
      rw [shuffleDeck_one] at hplace
      exact ih h (placeCard_keeps hplace hi)

/-- The arrangement `arr` without the cards that are still to be placed. -/
def partly (cards arr : List CardRef) : CardDeck :=
  arr.map fun c => if c ∈ cards then none else some c

section Partly

variable {c : CardRef} {cards arr : List CardRef}

@[simp] theorem partly_length : (partly cards arr).length = arr.length :=
  List.length_map ..

@[simp] theorem partly_nil : partly [] arr = arr.map some := by
  simp [partly]

/-- At the beginning of a shuffle nothing is placed. -/
theorem partly_all (h : arr ⊆ cards) :
    partly cards arr = List.replicate arr.length none := by
  rw [partly, List.eq_replicate_iff]
  refine ⟨List.length_map .., fun entry hentry => ?_⟩
  obtain ⟨c, hc, rfl⟩ := List.mem_map.mp hentry
  rw [if_pos (h hc)]

theorem partly_cons_free (hc : c ∈ arr) :
    (partly (c :: cards) arr)[arr.idxOf c]? = some none := by
  have hlt := List.idxOf_lt_length_iff.mpr hc
  simp [partly, hlt]

/-- Placing the next card where it belongs. -/
theorem partly_cons_set (harr : arr.Nodup) (hc : c ∈ arr) (hnew : c ∉ cards) :
    (partly (c :: cards) arr).set (arr.idxOf c) (some c) =
      partly cards arr := by
  have hlt := List.idxOf_lt_length_iff.mpr hc
  apply List.ext_getElem (by simp)
  intro k hk hk'
  rw [List.getElem_set]
  simp only [partly_length] at hk'
  split
  next heq =>
    subst heq
    simp [partly, hnew]
  next hne =>
    have hother : arr[k] ≠ c := by
      intro heq
      apply hne
      rw [← heq, harr.idxOf_getElem]
    simp [partly, hother]

theorem placeholders_partly (hcards : cards.Nodup) (harr : arr.Nodup)
    (hsub : cards ⊆ arr) : placeholders (partly cards arr) = cards.length := by
  have hcount : placeholders (partly cards arr) =
      arr.countP (fun c => decide (c ∈ cards)) := by
    rw [placeholders, partly, List.count, List.countP_map]
    apply List.countP_congr
    intro c _
    by_cases hc : c ∈ cards <;> simp [hc]
  have hperm : (arr.filter fun c => decide (c ∈ cards)).Perm cards := by
    rw [List.perm_ext_iff_of_nodup (harr.filter _) hcards]
    intro c
    simp only [List.mem_filter, decide_eq_true_eq]
    exact ⟨And.right, fun h => ⟨hsub h, h⟩⟩
  rw [hcount, List.countP_eq_length_filter, hperm.length_eq]

end Partly

section Law

variable {c : CardRef} {cards arr : List CardRef}

theorem shuffleInto_cons (newCardDeck : CardDeck) (card : CardRef)
    (cardDeck : CardDeck) :
    shuffleInto newCardDeck (some card :: cardDeck) = fun draws =>
      placeCard newCardDeck card draws >>= fun r =>
        shuffleInto r.1 cardDeck r.2 := by
  funext draws
  simp only [shuffleInto, orFault, bind_ok, shuffleDeck_one]

/-- A card that was placed elsewhere does not end up where `arr` has it. -/
theorem shuffleInto_ne {deck : CardDeck} {rest : CardDeck} {i : ℕ}
    {draws draws' : List ℕ} (harr : arr.Nodup) (hi : deck[i]? = some (some c))
    (hne : i ≠ arr.idxOf c) :
    shuffleInto deck rest draws ≠ .ok (arr.map some, draws') := by
  intro h
  have hlast := shuffleInto_keeps h hi
  rw [List.getElem?_map, Option.map_eq_some_iff] at hlast
  obtain ⟨c', hc', heq⟩ := hlast
  cases heq
  obtain ⟨hlt, rfl⟩ := List.getElem?_eq_some_iff.mp hc'
  exact hne (harr.idxOf_getElem i hlt).symm

/-- With `k` cards to be placed, every way to place them has the probability
`1 / k!`. -/
theorem law_shuffleInto (hcards : cards.Nodup) (harr : arr.Nodup)
    (hsub : cards ⊆ arr) :
    law (uniform arr.length)
        (value (shuffleInto (partly cards arr) (cards.map some)))
        (arr.map some) = ((cards.length).factorial : ℝ≥0∞)⁻¹ := by
  induction cards with
  | nil =>
      rw [(consumes_shuffleInto _ _).law_eq, tsum_eq_single ⟨[], by
        simp [shuffleInto]⟩]
      · simp
      · rintro ⟨draws, hdraws⟩ hne
        rw [List.map_nil, shuffleInto, Except.ok.injEq, Prod.mk.injEq]
          at hdraws
        exact absurd (Subtype.ext hdraws.2) hne
  | cons c rest ih =>
      obtain ⟨hnew, hrest⟩ := List.nodup_cons.mp hcards
      have hc : c ∈ arr := hsub List.mem_cons_self
      have htail : rest ⊆ arr := fun x hx => hsub (List.mem_cons_of_mem _ hx)
      have hfree : (partly (c :: rest) arr)[arr.idxOf c]? = some none :=
        partly_cons_free hc
      have hset := partly_cons_set harr hc hnew
      have hplace := law_placeCard c hfree
      rw [hset, partly_length, placeholders_partly hcards harr hsub] at hplace
      rw [List.map_cons, shuffleInto_cons,
        law_bind (consumes_placeCard _ _)
          (fun deck => consumes_shuffleInto deck (rest.map some)),
        tsum_eq_single (partly rest arr), hplace, ih hrest htail,
        List.length_cons, Nat.factorial_succ, Nat.cast_mul,
        ENNReal.mul_inv (by simp) (by simp)]
      intro deck hdeck
      by_cases hreach : ∃ draws draws',
          placeCard (partly (c :: rest) arr) c draws = .ok (deck, draws')
      · obtain ⟨draws, draws', hreach⟩ := hreach
        have hne : partly (c :: rest) arr ≠ [] := by
          intro hnil
          rw [hnil] at hfree
          cases hfree
        rw [placeCard_eq_retry hne, retry_eq_ok] at hreach
        obtain ⟨refused, d, -, -, hhit⟩ := hreach
        obtain ⟨hd, rfl⟩ := hit_eq_some.mp hhit
        have hat : ((partly (c :: rest) arr).set
            (d % (partly (c :: rest) arr).length) (some c))[d %
              (partly (c :: rest) arr).length]? = some (some c) :=
          List.getElem?_set_self (List.getElem?_eq_some_iff.mp hd).1
        rw [mul_eq_zero]
        refine Or.inr (law_eq_zero fun draws h => ?_)
        obtain ⟨draws', h⟩ := value_eq_ok.mp h
        refine shuffleInto_ne harr hat ?_ h
        intro heq
        rw [heq] at hdeck
        exact hdeck hset
      · rw [mul_eq_zero]
        refine Or.inl (law_eq_zero fun draws h => hreach ?_)
        obtain ⟨draws', h⟩ := value_eq_ok.mp h
        exact ⟨draws, draws', h⟩

/-- Every arrangement of distinct cards has the same probability. -/
theorem law_shuffle_perm (hcards : cards.Nodup) (hperm : arr.Perm cards) :
    law (uniform cards.length)
        (value (shuffleInto (List.replicate cards.length none)
          (cards.map some))) (arr.map some) =
      ((cards.length).factorial : ℝ≥0∞)⁻¹ := by
  rw [← hperm.length_eq, ← partly_all hperm.subset, hperm.length_eq,
    ← law_shuffleInto hcards (hperm.nodup_iff.mpr hcards) hperm.symm.subset,
    hperm.length_eq]

/-- A shuffle of distinct cards never ends in anything but an arrangement of
them, and in each of them with the same probability. -/
theorem law_shuffle (hcards : cards.Nodup) (deck' : CardDeck) :
    law (uniform cards.length)
        (value (shuffleInto (List.replicate cards.length none)
          (cards.map some))) deck' =
      if deck'.Perm (cards.map some) then
        ((cards.length).factorial : ℝ≥0∞)⁻¹ else 0 := by
  split
  next hperm =>
    have hfree : placeholders deck' = 0 := by
      rw [placeholders, hperm.count_eq, List.count_eq_zero]
      simp
    rw [eq_map_some_of_placeholders_eq_zero hfree] at hperm ⊢
    apply law_shuffle_perm hcards
    exact (List.map_perm_map_iff (Option.some_injective _)).mp hperm
  next hno =>
    apply law_eq_zero
    intro draws h
    obtain ⟨draws', h⟩ := value_eq_ok.mp h
    obtain ⟨arr, rfl, hperm⟩ := shuffleInto_replicate cards h
    exact hno (hperm.map some)

/-- The probabilities of all arrangements add up to one. -/
theorem tsum_arrangements (hcards : cards.Nodup) :
    (tsum fun deck' : CardDeck => if deck'.Perm (cards.map some) then
      ((cards.length).factorial : ℝ≥0∞)⁻¹ else 0) = 1 := by
  have hnodup : (cards.map some).Nodup :=
    hcards.map (Option.some_injective _)
  have hshare := tsum_share (List.nodup_permutations _ hnodup)
    (List.ne_nil_of_mem (List.mem_permutations.mpr (.refl _)))
  simpa only [List.mem_permutations, List.length_permutations,
    List.length_map] using hshare

end Law

theorem shuffle_eq_value {cardDeck : CardDeck} (h : cardDeck ≠ []) :
    shuffle cardDeck =
      value (shuffleInto (List.replicate cardDeck.length none) cardDeck) := by
  funext draws
  rw [shuffle, if_neg h, value]
  cases shuffleInto (List.replicate cardDeck.length none) cardDeck draws <;> rfl

theorem makeDeck_eq_value (base : CardRef) :
    makeDeck base = value (shuffleInto (List.replicate 15 none)
      ((placementOrder.map (base + ·)).map some)) := by
  funext draws
  have hmap : (placementOrder.map fun k => some (base + k)) =
      (placementOrder.map (base + ·)).map some := by simp
  rw [makeDeck, value, hmap]
  cases shuffleInto (List.replicate 15 none)
    ((placementOrder.map (base + ·)).map some) draws <;> rfl

/-- With independent draws that are uniform among the positions, `shuffle`
turns distinct cards into each of their `n!` arrangements with the probability
`1 / n!`, so that it returns with probability one. -/
theorem shuffle_uniform {cards : List CardRef} (hne : cards ≠ [])
    (hcards : cards.Nodup) :
    (∀ deck', law (uniform cards.length) (shuffle (cards.map some)) deck' =
      if deck'.Perm (cards.map some) then
        ((cards.length).factorial : ℝ≥0∞)⁻¹ else 0) ∧
    tsum (law (uniform cards.length) (shuffle (cards.map some))) = 1 := by
  have hlaw (deck' : CardDeck) :
      law (uniform cards.length) (shuffle (cards.map some)) deck' =
        if deck'.Perm (cards.map some) then
          ((cards.length).factorial : ℝ≥0∞)⁻¹ else 0 := by
    rw [shuffle_eq_value (by simpa using hne), List.length_map,
      law_shuffle hcards]
  refine ⟨hlaw, ?_⟩
  rw [tsum_congr hlaw, tsum_arrangements hcards]

/-- Two cards end up in either order with the probability one half. -/
theorem shuffle_uniform_two :
    law (uniform 2) (shuffle [some 3, some 5]) [some 5, some 3] =
      ((Nat.factorial 2 : ℕ) : ℝ≥0∞)⁻¹ := by
  have hlaw := (@shuffle_uniform [3, 5] (by simp) (by simp)).1
    [some 5, some 3]
  rwa [if_pos (by decide)] at hlaw

/-- A new game starts from each arrangement of its fifteen cards with the same
probability, and `makeDeck` returns with probability one. -/
theorem makeDeck_uniform (base : CardRef) :
    (∀ deck, law (uniform 15) (makeDeck base) deck =
      if deck.Perm ((createdCards base).map some) then
        ((Nat.factorial 15 : ℕ) : ℝ≥0∞)⁻¹ else 0) ∧
    tsum (law (uniform 15) (makeDeck base)) = 1 := by
  have horder : (placementOrder.map (base + ·)).Perm (createdCards base) :=
    (show placementOrder.Perm (List.range 15) by decide).map _
  have hnodup := horder.nodup_iff.mpr (createdCards_nodup base)
  have hlaw (deck : CardDeck) : law (uniform 15) (makeDeck base) deck =
      if deck.Perm ((placementOrder.map (base + ·)).map some) then
        ((Nat.factorial 15 : ℕ) : ℝ≥0∞)⁻¹ else 0 := by
    rw [makeDeck_eq_value]
    exact law_shuffle hnodup deck
  constructor
  · intro deck
    rw [hlaw]
    refine if_congr ⟨fun h => ?_, fun h => ?_⟩ rfl rfl
    · exact h.trans (horder.map some)
    · exact h.trans (horder.map some).symm
  · rw [tsum_congr hlaw]
    exact tsum_arrangements hnodup

end Coup
