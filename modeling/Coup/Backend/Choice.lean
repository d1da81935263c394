import Coup.Backend.Rates
import Coup.Support.Sampling

/-!
# The weighted choice of a move

`getAIMoveName` adds up the rates, draws a number up to the total and takes the
key in whose interval the number lies.  Its two bounds are always equal before
a key is looked at, so the choice is `select`, with income as the default.
-/

namespace Coup

open Coup.Support

variable {self : Seat} {dic : MoveName → ℤ} {order : DictOrder} {draw : ℕ}
  {name : MoveName}

theorem foldl_pickStep (dic : MoveName → ℤ) (rand : ℤ) (name : MoveName)
    (bound : ℤ) (keys : List MoveName) :
    (keys.foldl (pickStep dic rand) ⟨name, bound, bound⟩).aiMoveName =
      select dic rand name bound keys := by
  induction keys generalizing name bound with
  | nil => rfl
  | cons key keys ih => exact ih _ _

theorem rateTotal_eq (dic : MoveName → ℤ) (order : DictOrder) :
    rateTotal dic order = totalWeight dic order.keys := by
  rw [rateTotal, foldl_add_weight, zero_add]

theorem DictOrder.mem_keys (order : DictOrder) {k : MoveName} :
    k ∈ order.keys ↔ k ∈ rateKeys := order.perm.mem_iff

theorem DictOrder.nodup (order : DictOrder) : order.keys.Nodup :=
  order.perm.nodup_iff.mpr (by decide)

theorem rateTotal_nonneg (order : DictOrder) (h : ∀ k ∈ rateKeys, 0 ≤ dic k) :
    0 ≤ rateTotal dic order := by
  rw [rateTotal_eq]
  exact totalWeight_nonneg fun k hk => h k (order.mem_keys.mp hk)

theorem pickMoveName_eq_ok :
    pickMoveName self dic order draw = .ok name ↔
      0 ≤ rateTotal dic order ∧
        (if self.coins ≥ 7 then .coup
          else select dic ((draw : ℤ) % (rateTotal dic order + 1)) .income 0
            order.keys) = name := by
  unfold pickMoveName
  rw [← foldl_pickStep]
  split
  next hneg => simp [hneg]
  next hnonneg => simp [not_lt.mp hnonneg]

/-- A rich AI coups, and otherwise a picked move other than income has a
positive rate. -/
theorem pickMoveName_spec (h : pickMoveName self dic order draw = .ok name) :
    (name = .coup ∧ 7 ≤ self.coins) ∨
      self.coins < 7 ∧ name ∈ rateKeys ∧ (name = .income ∨ 0 < dic name) := by
  obtain ⟨-, h⟩ := pickMoveName_eq_ok.mp h
  split at h
  next hrich => exact Or.inl ⟨h.symm, hrich⟩
  next hpoor =>
    refine Or.inr ⟨not_le.mp hpoor, ?_⟩
    rcases select_cases dic ((draw : ℤ) % (rateTotal dic order + 1)) .income 0
        order.keys with hincome | ⟨hmem, hpos⟩
    · rw [← h, hincome]
      exact ⟨by decide, Or.inl rfl⟩
    · rw [h] at hmem hpos
      exact ⟨order.mem_keys.mp hmem, Or.inr hpos⟩

/-- A draw up to the total selects by its own value. -/
theorem pickMoveName_of_le (hcoins : self.coins < 7)
    (hdraw : (draw : ℤ) ≤ rateTotal dic order) :
    pickMoveName self dic order draw =
      .ok (select dic draw .income 0 order.keys) := by
  rw [pickMoveName_eq_ok]
  refine ⟨by omega, ?_⟩
  rw [if_neg (by omega), Int.emod_eq_of_lt (by omega) (by omega)]

/-- Every move with a positive rate is picked by some draw. -/
theorem exists_pickMoveName (order : DictOrder) (hcoins : self.coins < 7)
    (hdic : ∀ k ∈ rateKeys, 0 ≤ dic k) {k : MoveName} (hk : k ∈ rateKeys)
    (hpos : 0 < dic k) : ∃ draw, pickMoveName self dic order draw = .ok k := by
  obtain ⟨point, hpoint, hselect⟩ := exists_select .income 0 order.nodup
    (fun k hk => hdic k (order.mem_keys.mp hk)) (order.mem_keys.mpr hk) hpos
  rw [zero_add, ← rateTotal_eq, Finset.mem_Ioc] at hpoint
  obtain ⟨draw, rfl⟩ := Int.eq_ofNat_of_zero_le hpoint.1.le
  exact ⟨draw, by rw [pickMoveName_of_le hcoins hpoint.2, hselect]⟩

/-- The draws as points of the line. -/
theorem map_draws {total : ℤ} (h : 0 ≤ total) :
    (Finset.range (total.toNat + 1)).map Nat.castEmbedding =
      Finset.Icc 0 total := by
  ext point
  simp only [Finset.mem_map, Finset.mem_range, Nat.castEmbedding_apply,
    Finset.mem_Icc]
  constructor
  · rintro ⟨draw, hdraw, rfl⟩
    omega
  · intro hpoint
    exact ⟨point.toNat, by omega, by omega⟩

/-- The rates are never negative, and they are exactly the numbers of draws
that pick their moves; income is picked by one draw more. -/
theorem weighted_choice_exact (self : Seat) (dic : MoveName → ℤ)
    (order : DictOrder) (hcoins : self.coins < 7)
    (hdic : ∀ k ∈ rateKeys, 0 ≤ dic k) :
    (∀ self players dic, ∀ k ∈ rateKeys,
      0 ≤ changeMoveRate self players dic k) ∧
    rateTotal dic order = totalWeight dic rateKeys ∧
    (∀ k ∈ rateKeys,
      (((Finset.range ((rateTotal dic order).toNat + 1)).filter fun draw =>
        pickMoveName self dic order draw = .ok k).card : ℤ) =
          dic k + if k = .income then 1 else 0) ∧
    (∀ draw ∈ Finset.range ((rateTotal dic order).toNat + 1),
      ∃! k, pickMoveName self dic order draw = .ok k) ∧
    ∀ draw k, pickMoveName self dic order draw = .ok k →
      k ∈ rateKeys ∧ (k = .income ∨ 0 < dic k) := by
  have htotal := rateTotal_nonneg order hdic
  have hpick : ∀ draw ∈ Finset.range ((rateTotal dic order).toNat + 1),
      pickMoveName self dic order draw =
        .ok (select dic draw .income 0 order.keys) := by
    intro draw hdraw
    rw [Finset.mem_range] at hdraw
    exact pickMoveName_of_le hcoins (by omega)
  refine ⟨fun self players dic k => changeMoveRate_nonneg self players dic,
    ?_, ?_, ?_, ?_⟩
  · rw [rateTotal_eq]
    exact (order.perm.map dic).sum_eq
  · intro k hk
    have hcount : (Finset.Icc 0 (totalWeight dic order.keys)).filter
        (fun point => select dic point .income 0 order.keys = k) =
          ((Finset.range ((rateTotal dic order).toNat + 1)).filter fun draw =>
            pickMoveName self dic order draw = .ok k).map
              Nat.castEmbedding := by
      rw [← rateTotal_eq, ← map_draws htotal, Finset.filter_map]
      congr 1
      apply Finset.filter_congr
      intro draw hdraw
      rw [hpick draw hdraw, Except.ok.injEq]
      rfl
    rw [← card_select_Icc .income order.nodup
      (fun k hk => hdic k (order.mem_keys.mp hk)) (order.mem_keys.mpr hk),
      hcount, Finset.card_map]
  · intro draw hdraw
    refine ⟨_, hpick draw hdraw, fun k hk => ?_⟩
    rw [hpick draw hdraw] at hk
    exact (Except.ok.inj hk).symm
  · intro draw k hk
    rcases pickMoveName_spec hk with ⟨-, hrich⟩ | ⟨-, hcase⟩
    · omega
    · exact hcase

/-- With the rates an AI starts with, five of the draws pick tax and six pick
income. -/
theorem weighted_choice_exact_init :
    let self : Seat :=
      ⟨"Charlie Puth", ⟨.duke, false⟩, ⟨.captain, false⟩, 2⟩
    let draws :=
      Finset.range ((rateTotal AI.init.moveRateDic .literal).toNat + 1)
    ((draws.filter fun draw =>
        pickMoveName self AI.init.moveRateDic .literal draw = .ok .tax).card :
          ℤ) = 5 ∧
      ((draws.filter fun draw =>
        pickMoveName self AI.init.moveRateDic .literal draw =
          .ok .income).card : ℤ) = 6 := by
  obtain ⟨-, -, hcount, -⟩ :=
    weighted_choice_exact
      ⟨"Charlie Puth", ⟨.duke, false⟩, ⟨.captain, false⟩, 2⟩
      AI.init.moveRateDic .literal (by decide) (by decide)
  exact ⟨hcount .tax (by decide), hcount .income (by decide)⟩

end Coup
