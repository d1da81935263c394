import Mathlib.Data.Int.ConditionallyCompleteOrder
import Mathlib.Data.Int.Interval
import Mathlib.Order.ConditionallyCompleteLattice.Basic

/-!
# Selecting a key by its weight

The keys of a list lie side by side on a line, each taking up as much room as
its weight, and a point selects the key whose half-open interval it lies in.
Points to the left of all intervals select a default.  If no weight is negative
then a key is selected by exactly as many points as its weight says.
-/

namespace Coup.Support

variable {κ : Type*}

/-- Go through the keys from `lower` on and remember the key whose interval
contains the point. -/
def select (weight : κ → ℤ) (point : ℤ) : κ → ℤ → List κ → κ
  | current, _, [] => current
  | current, lower, key :: keys =>
      select weight point
        (if lower < point ∧ point ≤ lower + weight key then key else current)
        (lower + weight key) keys

/-- The room that the keys take up. -/
def totalWeight (weight : κ → ℤ) (keys : List κ) : ℤ :=
  (keys.map weight).sum

variable {weight : κ → ℤ} {point lower : ℤ} {current key : κ} {keys : List κ}

@[simp] theorem totalWeight_nil : totalWeight weight [] = 0 := rfl

@[simp] theorem totalWeight_cons :
    totalWeight weight (key :: keys) = weight key + totalWeight weight keys := by
  simp [totalWeight]

theorem totalWeight_nonneg (h : ∀ key ∈ keys, 0 ≤ weight key) :
    0 ≤ totalWeight weight keys := by
  induction keys with
  | nil => simp
  | cons key keys ih =>
      have hkey := h key List.mem_cons_self
      have hkeys := ih fun key hkey => h key (List.mem_cons_of_mem _ hkey)
      rw [totalWeight_cons]
      omega

/-- A fold that adds up the weights. -/
theorem foldl_add_weight (start : ℤ) :
    keys.foldl (fun total key => total + weight key) start =
      start + totalWeight weight keys := by
  induction keys generalizing start with
  | nil => simp
  | cons key keys ih =>
      rw [List.foldl_cons, ih, totalWeight_cons, add_assoc]

/-- The selected key has a positive weight, unless it is the default. -/
theorem select_cases (weight : κ → ℤ) (point : ℤ) (current : κ) (lower : ℤ)
    (keys : List κ) :
    select weight point current lower keys = current ∨
      select weight point current lower keys ∈ keys ∧
        0 < weight (select weight point current lower keys) := by
  induction keys generalizing current lower with
  | nil => exact Or.inl rfl
  | cons key keys ih =>
      rw [select]
      have hrest := ih
        (if lower < point ∧ point ≤ lower + weight key then key else current)
        (lower + weight key)
      rcases hrest with hsame | ⟨hmem, hpos⟩
      · rw [hsame]
        split
        next hin => exact Or.inr ⟨List.mem_cons_self, by omega⟩
        next => exact Or.inl rfl
      · exact Or.inr ⟨List.mem_cons_of_mem _ hmem, hpos⟩

/-- A point to the left of all intervals selects the default. -/
theorem select_of_le (h : ∀ key ∈ keys, 0 ≤ weight key)
    (hpoint : point ≤ lower) :
    select weight point current lower keys = current := by
  induction keys generalizing lower with
  | nil => rfl
  | cons key keys ih =>
      have hkey := h key List.mem_cons_self
      rw [select, if_neg (by omega)]
      exact ih (fun key hkey => h key (List.mem_cons_of_mem _ hkey)) (by omega)

/-- A point in the first interval selects its key. -/
theorem select_cons_of_le (h : ∀ key ∈ keys, 0 ≤ weight key)
    (hlower : lower < point) (hpoint : point ≤ lower + weight key) :
    select weight point current lower (key :: keys) = key := by
  rw [select, if_pos ⟨hlower, hpoint⟩]
  exact select_of_le h hpoint

/-- A point to the right of the first interval is decided by the others. -/
theorem select_cons_of_lt (hpoint : lower + weight key < point) :
    select weight point current lower (key :: keys) =
      select weight point current (lower + weight key) keys := by
  rw [select, if_neg (by omega)]

variable [DecidableEq κ]

/-- The points of the first interval all select its key. -/
theorem filter_select_first (current k : κ) (lower : ℤ)
    (h : ∀ key ∈ keys, 0 ≤ weight key) :
    ((Finset.Ioc lower (lower + weight key)).filter fun point =>
      select weight point current lower (key :: keys) = k) =
        if key = k then Finset.Ioc lower (lower + weight key) else ∅ := by
  ext point
  rw [Finset.mem_filter, Finset.mem_Ioc]
  constructor
  · rintro ⟨hpoint, hselect⟩
    rw [select_cons_of_le h hpoint.1 hpoint.2] at hselect
    rw [if_pos hselect]
    exact Finset.mem_Ioc.mpr hpoint
  · intro hmem
    split at hmem
    next hselect =>
      have hpoint := Finset.mem_Ioc.mp hmem
      refine ⟨hpoint, ?_⟩
      rw [select_cons_of_le h hpoint.1 hpoint.2]
      exact hselect
    next => simp at hmem

/-- The points behind the first interval are left to the other keys. -/
theorem filter_select_rest (current k : κ) (lower upper : ℤ) :
    ((Finset.Ioc (lower + weight key) upper).filter fun point =>
      select weight point current lower (key :: keys) = k) =
        (Finset.Ioc (lower + weight key) upper).filter fun point =>
          select weight point current (lower + weight key) keys = k := by
  apply Finset.filter_congr
  intro point hpoint
  rw [select_cons_of_lt (Finset.mem_Ioc.mp hpoint).1]

/-- Every key is selected by as many points as its weight says. -/
theorem card_select (current k : κ) (lower : ℤ) (hnodup : keys.Nodup)
    (h : ∀ key ∈ keys, 0 ≤ weight key) :
    (((Finset.Ioc lower (lower + totalWeight weight keys)).filter fun point =>
      select weight point current lower keys = k).card : ℤ) =
        if k ∈ keys then weight k else 0 := by
  induction keys generalizing lower with
  | nil => simp
  | cons key keys ih =>
      obtain ⟨hkey, hkeys⟩ := List.nodup_cons.mp hnodup
      have hweight := h key List.mem_cons_self
      have htail : ∀ key ∈ keys, 0 ≤ weight key := fun key hkey =>
        h key (List.mem_cons_of_mem _ hkey)
      have htotal := totalWeight_nonneg htail
      have hsplit := Finset.Ioc_union_Ioc_eq_Ioc
        (show lower ≤ lower + weight key by omega)
        (show lower + weight key ≤
          lower + weight key + totalWeight weight keys by omega)
      have hdisjoint := Finset.Ioc_disjoint_Ioc_of_le
        (le_refl (lower + weight key)) (a := lower)
        (d := lower + weight key + totalWeight weight keys)
      rw [totalWeight_cons, ← add_assoc, ← hsplit, Finset.filter_union,
        Finset.card_union_of_disjoint
          (Finset.disjoint_filter_filter hdisjoint),
        filter_select_first current k lower htail, filter_select_rest]
      push_cast
      rw [ih _ hkeys htail]
      by_cases hk : key = k
      · subst hk
        simp [hkey, hweight]
      · have hne : k ≠ key := fun heq => hk heq.symm
        simp [hk, hne]

/-- Every key with a positive weight is selected by some point. -/
theorem exists_select (current : κ) {k : κ} (lower : ℤ) (hnodup : keys.Nodup)
    (h : ∀ key ∈ keys, 0 ≤ weight key) (hk : k ∈ keys) (hpos : 0 < weight k) :
    ∃ point ∈ Finset.Ioc lower (lower + totalWeight weight keys),
      select weight point current lower keys = k := by
  have hcard := card_select current k lower hnodup h
  rw [if_pos hk] at hcard
  obtain ⟨point, hpoint⟩ := Finset.card_pos.mp
    (Int.natCast_pos.mp (hcard ▸ hpos))
  rw [Finset.mem_filter] at hpoint
  exact ⟨point, hpoint.1, hpoint.2⟩

/-- Of the points from `0` to the total weight, every key of the list is
selected by as many as its weight says, and the default by one more. -/
theorem card_select_Icc (current : κ) {k : κ} (hnodup : keys.Nodup)
    (h : ∀ key ∈ keys, 0 ≤ weight key) (hk : k ∈ keys) :
    (((Finset.Icc 0 (totalWeight weight keys)).filter fun point =>
      select weight point current 0 keys = k).card : ℤ) =
        weight k + if k = current then 1 else 0 := by
  have htotal := totalWeight_nonneg h
  have hinsert : Finset.Icc 0 (totalWeight weight keys) =
      insert 0 (Finset.Ioc 0 (totalWeight weight keys)) := by
    ext point
    simp only [Finset.mem_Icc, Finset.mem_insert, Finset.mem_Ioc]
    omega
  have hcard := card_select current k 0 hnodup h
  rw [zero_add, if_pos hk] at hcard
  rw [hinsert, Finset.filter_insert, select_of_le h le_rfl]
  by_cases hcurrent : current = k
  · rw [if_pos hcurrent, Finset.card_insert_of_notMem (by simp),
      if_pos hcurrent.symm]
    push_cast
    rw [hcard]
  · rw [if_neg hcurrent, if_neg fun heq => hcurrent heq.symm, hcard, add_zero]

end Coup.Support
