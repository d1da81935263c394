import Coup.Game.Controller
import Coup.Rules.Board
import Mathlib.Data.List.Pairwise

/-!
# Cards on the table and the board they show

`OnTable` says where the cards created by `makeDeck` are at some moment: in
the deck, in the hands of the players in the order of their seats, or parked
in local variables, each object in exactly one of these places; that the cards
outside the hands are face down; and that hands and coins show a given `Board`.
The lemmas follow the assignments of the program: turning a card, swapping a
card of a hand against a parked one, drawing and giving back.
-/

namespace Coup

open Coup.Support

/-- The cards in the hands of the listed players. -/
def World.handsOf (w : World) (seats : List PlayerRef) : List CardRef :=
  seats.flatMap fun p => [w.slot p .first, w.slot p .second]

/-- The cards of all hands, seat by seat. -/
def World.handCards (w : World) : List CardRef := w.handsOf w.players

/-- What no operation of a turn changes about the players and the cards. -/
structure SameTable (w w' : World) : Prop where
  players : w'.players = w.players
  username : w'.username = w.username
  name : ∀ p, (w'.player p).name = (w.player p).name
  ai : ∀ p, (w'.player p).ai.isSome = (w.player p).ai.isSome
  role : ∀ c, (w'.card c).role = (w.card c).role

namespace SameTable

theorem refl (w : World) : SameTable w w :=
  ⟨rfl, rfl, fun _ => rfl, fun _ => rfl, fun _ => rfl⟩

theorem trans {w₁ w₂ w₃ : World} (h : SameTable w₁ w₂)
    (h' : SameTable w₂ w₃) : SameTable w₁ w₃ where
  players := h'.players.trans h.players
  username := h'.username.trans h.username
  name p := (h'.name p).trans (h.name p)
  ai p := (h'.ai p).trans (h.ai p)
  role c := (h'.role c).trans (h.role c)

theorem setSlot (w : World) (p : PlayerRef) (i : Slot) (c : CardRef) :
    SameTable w (w.setSlot p i c) :=
  ⟨rfl, rfl, fun _ => by simp, fun _ => by simp, fun _ => rfl⟩

theorem addCoins (w : World) (p : PlayerRef) (n : ℤ) :
    SameTable w (w.addCoins p n) :=
  ⟨rfl, rfl, fun _ => by simp, fun _ => by simp, fun _ => rfl⟩

theorem setRevealed (w : World) (c : CardRef) (r : Bool) :
    SameTable w (w.setRevealed c r) :=
  ⟨rfl, rfl, fun _ => rfl, fun _ => rfl, fun _ => by simp⟩

theorem setAI {w : World} {p : PlayerRef} (h : (w.player p).ai.isSome)
    (ai : AI) : SameTable w (w.setAI p ai) where
  players := rfl
  username := rfl
  name _ := by simp
  ai q := by
    rw [World.setAI_ai]
    split
    next hq => simp [hq, h]
    next => rfl
  role _ := rfl

end SameTable

/-- Where the cards are and what the table shows. -/
structure OnTable (created : List CardRef) (w : World)
    (cards parked : List CardRef) (b : Board PlayerRef) : Prop where
  created_nodup : created.Nodup
  seats_nodup : w.players.Nodup
  partition : (cards ++ (w.handCards ++ parked)).Perm created
  faceDown : ∀ c ∈ cards ++ parked, (w.card c).revealed = false
  face : ∀ p ∈ w.players, ∀ i, (w.held p i).revealed = b.face p i
  coins : ∀ p ∈ w.players, (w.player p).coins = b.coins p

/-! ## The cards of the hands -/

namespace World

theorem handsOf_cons (w : World) (q : PlayerRef) (seats : List PlayerRef) :
    w.handsOf (q :: seats) =
      w.slot q .first :: w.slot q .second :: w.handsOf seats := rfl

theorem mem_handsOf {w : World} {seats : List PlayerRef} {c : CardRef} :
    c ∈ w.handsOf seats ↔ ∃ p ∈ seats, ∃ i, w.slot p i = c := by
  rw [handsOf, List.mem_flatMap]
  refine exists_congr fun p => and_congr_right fun _ => ?_
  simp only [List.mem_cons, List.not_mem_nil, or_false]
  constructor
  · rintro (h | h)
    · exact ⟨.first, h.symm⟩
    · exact ⟨.second, h.symm⟩
  · rintro ⟨i, h⟩
    cases i
    · exact Or.inl h.symm
    · exact Or.inr h.symm

theorem slot_mem_handCards {w : World} {p : PlayerRef}
    (hp : p ∈ w.players) (i : Slot) : w.slot p i ∈ w.handCards :=
  mem_handsOf.mpr ⟨p, hp, i, rfl⟩

/-- In a table without repeated cards a card is in one position of one hand. -/
theorem slot_injective {w : World} {p q : PlayerRef} {i j : Slot}
    (hnodup : w.handCards.Nodup) (hp : p ∈ w.players) (hq : q ∈ w.players)
    (h : w.slot p i = w.slot q j) : p = q ∧ i = j := by
  rw [handCards, handsOf, List.nodup_flatMap] at hnodup
  obtain ⟨hhand, hdisjoint⟩ := hnodup
  have hpq : p = q := by
    by_contra hne
    have hsymm : Std.Symm (Function.onFun List.Disjoint
        fun p => [w.slot p .first, w.slot p .second]) :=
      ⟨fun _ _ hd _ h₁ h₂ => hd h₂ h₁⟩
    have hpair := hdisjoint.forall hp hq hne
    refine hpair (a := w.slot p i) ?_ ?_
    · cases i <;> simp
    · rw [h]
      cases j <;> simp
  subst hpq
  refine ⟨rfl, ?_⟩
  have hne : w.slot p .first ≠ w.slot p .second := by
    simpa using hhand p hp
  cases i <;> cases j
  · rfl
  · exact absurd h hne
  · exact absurd h.symm hne
  · rfl

theorem handsOf_setSlot_of_notMem {w : World} {p : PlayerRef}
    {seats : List PlayerRef} (hp : p ∉ seats) (i : Slot) (c : CardRef) :
    (w.setSlot p i c).handsOf seats = w.handsOf seats := by
  apply List.flatMap_congr
  intro q hq
  have hne : q ≠ p := fun h => hp (h ▸ hq)
  simp [setSlot_slot, hne]

/-- Putting `c` into one position of one hand exchanges it for the card that
was there. -/
theorem handsOf_setSlot {w : World} {p : PlayerRef} {seats : List PlayerRef}
    (hp : p ∈ seats) (hnodup : seats.Nodup) (i : Slot) (c : CardRef) :
    (w.slot p i :: (w.setSlot p i c).handsOf seats).Perm
      (c :: w.handsOf seats) := by
  induction seats with
  | nil => cases hp
  | cons q qs ih =>
      obtain ⟨hq, hqs⟩ := List.nodup_cons.mp hnodup
      rw [List.perm_iff_count]
      intro a
      by_cases hpq : p = q
      · subst hpq
        rw [handsOf_cons, handsOf_cons, handsOf_setSlot_of_notMem hq]
        cases i <;> simp [setSlot_slot, List.count_cons] <;> omega
      · have hmem : p ∈ qs := (List.mem_cons.mp hp).resolve_left hpq
        have hrest := (ih hmem hqs).count_eq a
        rw [handsOf_cons, handsOf_cons]
        have hne : q ≠ p := fun h => hpq h.symm
        simp only [setSlot_slot, hne, false_and, if_false,
          List.count_cons] at hrest ⊢
        omega

end World

/-! ## Moving cards -/

namespace OnTable

variable {created : List CardRef} {w : World} {cards cards' : List CardRef}
  {parked parked' : List CardRef} {b : Board PlayerRef} {p : PlayerRef}
  {i : Slot} {c : CardRef}

theorem nodup (h : OnTable created w cards parked b) :
    (cards ++ (w.handCards ++ parked)).Nodup :=
  h.partition.nodup_iff.mpr h.created_nodup

theorem handCards_nodup (h : OnTable created w cards parked b) :
    w.handCards.Nodup :=
  (List.nodup_append.mp (List.nodup_append.mp h.nodup).2.1).1

theorem slot_notMem (h : OnTable created w cards parked b)
    (hp : p ∈ w.players) : w.slot p i ∉ cards ++ parked := by
  have hhand := World.slot_mem_handCards hp i
  obtain ⟨-, hrest, hdeck⟩ := List.nodup_append.mp h.nodup
  obtain ⟨-, -, hparked⟩ := List.nodup_append.mp hrest
  rw [List.mem_append]
  rintro (hc | hc)
  · exact hdeck _ hc _ (List.mem_append_left _ hhand) rfl
  · exact hparked _ hhand _ hc rfl

/-- Only references, faces and coins of the listed players matter. -/
theorem congr {w' : World} (h : OnTable created w cards parked b)
    (hplayers : w'.players = w.players)
    (hcard : ∀ c, (w'.card c).revealed = (w.card c).revealed)
    (hslot : ∀ p i, w'.slot p i = w.slot p i)
    (hcoins : ∀ p ∈ w.players, (w'.player p).coins = (w.player p).coins) :
    OnTable created w' cards parked b where
  created_nodup := h.created_nodup
  seats_nodup := hplayers ▸ h.seats_nodup
  partition := by
    have hhands : w'.handCards = w.handCards := by
      unfold World.handCards World.handsOf
      simp only [hplayers, hslot]
    rw [hhands]
    exact h.partition
  faceDown c hc := (hcard c).trans (h.faceDown c hc)
  face p hp i := by
    rw [hplayers] at hp
    rw [World.held, hslot, hcard]
    exact h.face p hp i
  coins p hp := by
    rw [hplayers] at hp
    exact (hcoins p hp).trans (h.coins p hp)

/-- Cards change between the deck and those that are parked. -/
theorem regroup (h : OnTable created w cards parked b)
    (hperm : (cards' ++ parked').Perm (cards ++ parked)) :
    OnTable created w cards' parked' b := by
  refine { h with partition := ?_, faceDown := ?_ }
  · refine List.Perm.trans ?_ h.partition
    rw [List.perm_iff_count] at hperm ⊢
    intro a
    have hcount := hperm a
    simp only [List.count_append] at hcount ⊢
    omega
  · intro d hd
    exact h.faceDown d (hperm.subset hd)

theorem park_perm (h : OnTable created w cards parked b)
    (hperm : parked'.Perm parked) : OnTable created w cards parked' b :=
  h.regroup (hperm.append_left cards)

/-- Turning a card of a hand turns one position of the board. -/
theorem turnSlot (h : OnTable created w cards parked b)
    (hp : p ∈ w.players) (i : Slot) (up : Bool) :
    OnTable created (w.setRevealed (w.slot p i) up) cards parked
      (b.turn p i up) where
  created_nodup := h.created_nodup
  seats_nodup := h.seats_nodup
  partition := h.partition
  faceDown c hc := by
    have hne : c ≠ w.slot p i := fun hEq => h.slot_notMem hp (hEq ▸ hc)
    rw [World.setRevealed_revealed, if_neg hne]
    exact h.faceDown c hc
  face q hq j := by
    rw [World.held, World.setRevealed_revealed, World.setRevealed_slot,
      Board.turn_face]
    by_cases hqp : q = p ∧ j = i
    · rw [if_pos hqp, hqp.1, hqp.2, if_pos rfl]
    · rw [if_neg hqp, if_neg fun hslot =>
        hqp (World.slot_injective h.handCards_nodup hq hp hslot)]
      exact h.face q hq j
  coins := h.coins

theorem partition_swap (h : OnTable created w cards (c :: parked) b)
    (hp : p ∈ w.players) (i : Slot) :
    (cards ++ ((w.setSlot p i c).handCards ++ w.slot p i :: parked)).Perm
      created := by
  refine List.Perm.trans ?_ h.partition
  have hhands : (w.slot p i :: (w.setSlot p i c).handCards).Perm
      (c :: w.handCards) :=
    World.handsOf_setSlot hp h.seats_nodup i c
  rw [List.perm_iff_count] at hhands ⊢
  intro a
  have hcount := hhands a
  simp only [List.count_append, List.count_cons] at hcount ⊢
  omega

theorem parked_down (h : OnTable created w cards (c :: parked) b) :
    (w.card c).revealed = false :=
  h.faceDown c (by simp)

/-- Swapping a hidden card of a hand against a parked card does not show. -/
theorem swapSlot (h : OnTable created w cards (c :: parked) b)
    (hp : p ∈ w.players) (hdown : (w.held p i).revealed = false) :
    OnTable created (w.setSlot p i c) cards (w.slot p i :: parked) b where
  created_nodup := h.created_nodup
  seats_nodup := h.seats_nodup
  partition := h.partition_swap hp i
  faceDown d hd := by
    by_cases hEq : d = w.slot p i
    · subst hEq
      exact hdown
    · apply h.faceDown d
      simp only [List.mem_append, List.mem_cons, hEq, false_or] at hd ⊢
      exact hd.imp_right Or.inr
  face q hq j := by
    rw [World.held, World.setSlot_slot]
    by_cases hqp : q = p ∧ j = i
    · rw [if_pos hqp, hqp.1, hqp.2]
      exact h.parked_down.trans (hdown.symm.trans (h.face p hp i))
    · rw [if_neg hqp]
      exact h.face q hq j
  coins q hq := by
    rw [World.setSlot_coins]
    exact h.coins q hq

/-- Replacing a card of a hand by a parked one and turning it face down. -/
theorem replaceSlot (h : OnTable created w cards (c :: parked) b)
    (hp : p ∈ w.players) (i : Slot) :
    OnTable created ((w.setSlot p i c).setRevealed (w.slot p i) false) cards
      (w.slot p i :: parked) (b.turn p i false) where
  created_nodup := h.created_nodup
  seats_nodup := h.seats_nodup
  partition := h.partition_swap hp i
  faceDown d hd := by
    rw [World.setRevealed_revealed]
    split
    next => rfl
    next hEq =>
      apply h.faceDown d
      simp only [List.mem_append, List.mem_cons, hEq, false_or] at hd ⊢
      exact hd.imp_right Or.inr
  face q hq j := by
    rw [World.held, World.setRevealed_revealed, World.setRevealed_slot,
      World.setSlot_slot, Board.turn_face]
    by_cases hqp : q = p ∧ j = i
    · rw [if_pos hqp, if_pos hqp]
      split
      · rfl
      · exact h.parked_down
    · have hne : w.slot q j ≠ w.slot p i := fun hslot =>
        hqp (World.slot_injective h.handCards_nodup hq hp hslot)
      rw [if_neg hqp, if_neg hqp, if_neg hne]
      exact h.face q hq j
  coins q hq := by
    rw [World.setRevealed_player, World.setSlot_coins]
    exact h.coins q hq

theorem draw (h : OnTable created w cards parked b)
    (hperm : (c :: cards').Perm cards) :
    OnTable created w cards' (c :: parked) b :=
  h.regroup (List.perm_middle.trans (hperm.append_right parked))

theorem giveBack (h : OnTable created w cards (c :: parked) b)
    (hperm : cards'.Perm (c :: cards)) :
    OnTable created w cards' parked b :=
  h.regroup ((hperm.append_right parked).trans List.perm_middle.symm)

theorem addCoins (h : OnTable created w cards parked b)
    (p : PlayerRef) (n : ℤ) :
    OnTable created (w.addCoins p n) cards parked (b.pay p n) where
  created_nodup := h.created_nodup
  seats_nodup := h.seats_nodup
  partition := by
    have hhands : (w.addCoins p n).handCards = w.handCards := by
      simp [World.handCards, World.handsOf]
    rw [hhands]
    exact h.partition
  faceDown := h.faceDown
  face q hq j := by
    rw [World.addCoins_held]
    exact h.face q hq j
  coins q hq := by
    rw [World.addCoins_coins, h.coins q hq, Board.pay_coins]

theorem firstHidden_eq (h : OnTable created w cards parked b)
    (hp : p ∈ w.players) : w.firstHidden p = b.firstHidden p := by
  simp [World.firstHidden, Board.firstHidden, h.face p hp]

/-- `revealCard` makes its player lose an influence. -/
theorem revealCard {w' : World} (h : OnTable created w cards parked b)
    (hp : p ∈ w.players) (hreveal : w.revealCard p = .ok w') :
    OnTable created w' cards parked (b.lose p) := by
  rw [World.revealCard, bind_eq_ok] at hreveal
  obtain ⟨last, -, hreveal⟩ := hreveal
  rw [h.firstHidden_eq hp] at hreveal
  cases hi : b.firstHidden p with
  | some i =>
      rw [hi] at hreveal
      cases hreveal
      rw [Board.lose, hi]
      exact h.turnSlot hp i true
  | none =>
      rw [hi] at hreveal
      cases hreveal
      rw [Board.lose, hi]
      exact h

end OnTable

/-- `revealCard` changes at most one face. -/
theorem World.revealCard_eq {w w' : World} {p : PlayerRef}
    (h : w.revealCard p = .ok w') :
    w' = w ∨ ∃ i, w.firstHidden p = some i ∧
      w' = w.setRevealed (w.slot p i) true := by
  rw [World.revealCard, bind_eq_ok] at h
  obtain ⟨last, -, h⟩ := h
  split at h
  next i hi =>
    cases h
    exact Or.inr ⟨i, hi, rfl⟩
  next =>
    cases h
    exact Or.inl rfl

theorem SameTable.revealCard {w w' : World} {p : PlayerRef}
    (h : w.revealCard p = .ok w') : SameTable w w' := by
  obtain rfl | ⟨i, -, rfl⟩ := World.revealCard_eq h
  · exact .refl _
  · exact .setRevealed _ _ _

theorem World.revealCard_moveLog {w w' : World} {p : PlayerRef}
    (h : w.revealCard p = .ok w') : w'.moveLog = w.moveLog := by
  obtain rfl | ⟨i, -, rfl⟩ := World.revealCard_eq h <;> rfl

end Coup
