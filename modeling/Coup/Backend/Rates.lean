import Coup.Backend.AI

/-!
# The rates of an AI

`changeMoveRate` updates a dictionary key by key.  Each of its parts gets one
equation that says what it leaves under a key, so that the later results never
unfold the chain of updates.
-/

namespace Coup

/-! ## Copies of a role -/

/-- The number of cards in a hand that have the ability. -/
def Seat.copies (m : MoveName) (s : Seat) : ℕ :=
  (if s.card1.can m then 1 else 0) + if s.card2.can m then 1 else 0

/-- The number of cards that everybody can see to have the ability. -/
def Seat.shownCopies (m : MoveName) (s : Seat) : ℕ :=
  (if s.card1.revealed && s.card1.can m then 1 else 0) +
    if s.card2.revealed && s.card2.can m then 1 else 0

/-- The copies that players with another name show. -/
def shownByOthers (m : MoveName) (self : Seat) (players : List Seat) : ℕ :=
  ((players.filter fun player => decide (player.name ≠ self.name)).map
    (Seat.shownCopies m)).sum

/-! ## Clamping -/

theorem clampRate_apply (m : MoveName) (dic : MoveName → ℤ) (k : MoveName) :
    clampRate m dic k = if k = m then max (dic k) 0 else dic k := by
  unfold clampRate
  by_cases hk : k = m
  · subst hk
    split
    next hneg => simp [updateRate, max_eq_right hneg.le]
    next hnonneg => simp [max_eq_left (not_lt.mp hnonneg)]
  · split <;> simp [updateRate, hk]

/-- No key of the dictionary is left below zero. -/
theorem clampRates_apply {k : MoveName} (hk : k ∈ rateKeys)
    (dic : MoveName → ℤ) : clampRates dic k = max (dic k) 0 := by
  simp only [clampRates, clampRate_apply]
  cases k <;> simp [rateKeys] at hk ⊢

theorem changeMoveRate_nonneg (self : Seat) (players : List Seat)
    (dic : MoveName → ℤ) {k : MoveName} (hk : k ∈ rateKeys) :
    0 ≤ changeMoveRate self players dic k := by
  rw [changeMoveRate, clampRates_apply hk]
  exact le_max_right _ _

/-! ## Adjustments -/

/-- What the adjustments by the AI's own coins leave under a key. -/
theorem adjustByCoins_apply (self : Seat) (dic : MoveName → ℤ)
    (k : MoveName) :
    adjustByCoins self dic k =
      if k = .assassinate ∧ self.coins < 3 then 0
      else if k = .income ∨ k = .tax ∨ k = .foreignAid then
        dic k + if self.coins < 3 then 10 else -10
      else dic k := by
  unfold adjustByCoins
  split
  next hpoor => cases k <;> simp [updateRate, hpoor]
  next hrich => cases k <;> simp [updateRate, hrich]

theorem adjustSteal_apply (self : Seat) (players : List Seat)
    (dic : MoveName → ℤ) (k : MoveName) :
    adjustSteal self players dic k =
      if k = .steal ∧ (poorOthers self players : ℤ) = (players.length : ℤ) - 1
      then 0 else dic k := by
  unfold adjustSteal
  split
  next hnone => by_cases hk : k = .steal <;> simp [updateRate, hk, hnone]
  next hsome => simp [hsome]

/-- An AI that cannot pay for an assassination rates it zero. -/
theorem changeMoveRate_assassinate {self : Seat} (h : self.coins < 3)
    (players : List Seat) (dic : MoveName → ℤ) :
    changeMoveRate self players dic .assassinate = 0 := by
  rw [changeMoveRate, clampRates_apply (by simp [rateKeys]), adjustSteal_apply,
    adjustByCoins_apply]
  simp [h]

/-! ## Role blocks -/

/-- The moves that have a role block. -/
def roleMoves : List MoveName :=
  [.assassinate, .exchange, .tax, .steal, .foreignAid]

/-- The rate that a block stores before it begins, if it does. -/
def startRate : MoveName → Option ℤ
  | .assassinate | .steal => some 5
  | _ => none

/-- Each block reads and writes the rate of its own move. -/
theorem roleBlocks_apply (self : Seat) (players : List Seat)
    (dic : MoveName → ℤ) (k : MoveName) :
    roleBlocks self players dic k =
      if k ∈ roleMoves then roleBlock k (startRate k) self players (dic k)
      else dic k := by
  simp only [roleBlocks, updateRate]
  cases k <;> simp [roleMoves, startRate]

/-- The rate that `changeMoveRate` leaves for steal. -/
theorem changeMoveRate_steal (self : Seat) (players : List Seat)
    (dic : MoveName → ℤ) :
    changeMoveRate self players dic .steal =
      if (poorOthers self players : ℤ) = (players.length : ℤ) - 1 then 0
      else max (roleBlock .steal (some 5) self players (dic .steal)) 0 := by
  rw [changeMoveRate, clampRates_apply (by simp [rateKeys]), adjustSteal_apply,
    adjustByCoins_apply, roleBlocks_apply]
  simp only [true_and]
  split
  · simp
  · simp [roleMoves, startRate]

end Coup
