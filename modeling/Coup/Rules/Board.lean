import Coup.Backend.Card

/-!
# The public side of the table

A `Board` is what everybody at the table sees: which positions of each hand
are face up, and how many coins each player has.  The operations are the ones
the rules talk about: a player loses an influence, a position is turned up or
replaced by a hidden card, coins are paid.  The players are of an arbitrary
type; no cards, decks or names occur.
-/

namespace Coup

structure Board (P : Type*) where
  face : P → Slot → Bool
  coins : P → ℤ

namespace Board

variable {P : Type*}

/-- The number of unrevealed cards in a hand. -/
def influence (b : Board P) (p : P) : ℕ :=
  (if b.face p .first then 0 else 1) + if b.face p .second then 0 else 1

/-- A player with no unrevealed card is out of the game. -/
def Out (b : Board P) (p : P) : Prop := b.influence p = 0

instance (b : Board P) (p : P) : Decidable (b.Out p) :=
  inferInstanceAs (Decidable (_ = _))

/-- The first unrevealed position of a hand. -/
def firstHidden (b : Board P) (p : P) : Option Slot :=
  if !b.face p .first then some .first
  else if !b.face p .second then some .second
  else none

variable [DecidableEq P]

/-- Turn a position up or down. -/
def turn (b : Board P) (p : P) (i : Slot) (up : Bool) : Board P :=
  { b with face := fun q j => if q = p ∧ j = i then up else b.face q j }

/-- Lose one influence, as long as there is one left. -/
def lose (b : Board P) (p : P) : Board P :=
  match b.firstHidden p with
  | some i => b.turn p i true
  | none => b

def pay (b : Board P) (p : P) (n : ℤ) : Board P :=
  { b with coins := fun q => b.coins q + if q = p then n else 0 }

/-! ## Influence -/

variable (b : Board P) (p q : P) (i j : Slot) (n : ℤ)

omit [DecidableEq P] in
theorem out_iff : b.Out p ↔ ∀ i, b.face p i = true := by
  unfold Out influence
  constructor
  · intro h i
    cases i
    · by_contra hi
      simp [hi] at h
    · by_contra hi
      simp [hi] at h
  · intro h
    simp [h]

omit [DecidableEq P] in
theorem influence_le_two : b.influence p ≤ 2 := by
  unfold influence
  split <;> split <;> omega

omit [DecidableEq P] in
theorem influence_congr {b b' : Board P}
    (h : ∀ i, b'.face p i = b.face p i) : b'.influence p = b.influence p := by
  simp [influence, h]

omit [DecidableEq P] in
theorem firstHidden_eq_some (h : b.firstHidden p = some i) :
    b.face p i = false := by
  unfold firstHidden at h
  split at h
  next hfirst => cases h; simpa using hfirst
  next =>
    split at h
    next hsecond => cases h; simpa using hsecond
    next => cases h

omit [DecidableEq P] in
theorem firstHidden_eq_none (h : b.firstHidden p = none) : b.Out p := by
  rw [out_iff]
  unfold firstHidden at h
  split at h
  next => cases h
  next hfirst =>
    split at h
    next => cases h
    next hsecond =>
      intro i
      cases i
      · simpa using hfirst
      · simpa using hsecond

@[simp] theorem turn_face (up : Bool) :
    (b.turn p i up).face q j = if q = p ∧ j = i then up else b.face q j := rfl

@[simp] theorem turn_coins (up : Bool) : (b.turn p i up).coins = b.coins := rfl

theorem influence_turn_of_ne {p q : P} (h : q ≠ p) (up : Bool) :
    (b.turn p i up).influence q = b.influence q := by
  simp [influence, h]

/-- Turning up a hidden position costs one influence. -/
theorem influence_turn_up {b : Board P} {p : P} {i : Slot}
    (h : b.face p i = false) :
    (b.turn p i true).influence p + 1 = b.influence p := by
  cases i <;> simp [influence, h]
  omega

/-- Replacing a shown card by a hidden one gives one influence back. -/
theorem influence_turn_down {b : Board P} {p : P} {i : Slot}
    (h : b.face p i = true) :
    (b.turn p i false).influence p = b.influence p + 1 := by
  cases i <;> simp [influence, h]
  omega

theorem turn_eq_self {b : Board P} {p : P} {i : Slot} {up : Bool}
    (h : b.face p i = up) : b.turn p i up = b := by
  obtain ⟨face, coins⟩ := b
  simp only [turn, mk.injEq, and_true]
  funext q j
  split
  next hq => rw [hq.1, hq.2]; exact h.symm
  next => rfl

@[simp] theorem lose_coins : (b.lose p).coins = b.coins := by
  unfold lose
  split <;> rfl

theorem lose_face_congr {b b' : Board P} (h : b'.face = b.face) :
    (b'.lose p).face = (b.lose p).face := by
  have hhidden : b'.firstHidden p = b.firstHidden p := by
    simp [firstHidden, h]
  unfold lose
  rw [hhidden]
  split
  · simp [turn, h]
  · exact h

theorem lose_face_of_ne {p q : P} (h : q ≠ p) :
    (b.lose p).face q j = b.face q j := by
  unfold lose
  split <;> simp [h]

theorem influence_lose_of_ne {p q : P} (h : q ≠ p) :
    (b.lose p).influence q = b.influence q :=
  influence_congr q fun j => lose_face_of_ne b j h

theorem influence_lose_self :
    (b.lose p).influence p = b.influence p - 1 := by
  unfold lose
  split
  next i hi =>
    have h := influence_turn_up (firstHidden_eq_some b p i hi)
    omega
  next hnone =>
    have h : b.influence p = 0 := firstHidden_eq_none b p hnone
    omega

theorem influence_lose :
    (b.lose p).influence q = b.influence q - if q = p then 1 else 0 := by
  by_cases h : q = p
  · subst h
    simpa using influence_lose_self b q
  · simpa [h] using influence_lose_of_ne b h

@[simp] theorem pay_face : (b.pay p n).face = b.face := rfl

@[simp] theorem pay_coins :
    (b.pay p n).coins q = b.coins q + if q = p then n else 0 := rfl

@[simp] theorem pay_influence :
    (b.pay p n).influence q = b.influence q := rfl

end Board

end Coup
