import Coup.Support.Run
import Mathlib.Analysis.SpecificLimits.Basic
import Mathlib.Data.List.OfFn

/-!
# Laws of computations that read random draws

A computation that reads random draws is a function of the list of draws and
fails when the list is too short for it.  If each draw has a weight then a list
of draws has the product of their weights, and the law of a computation gives
a result the weight of all lists after which the computation returns it.  The
two rules are the ones a verification of a sampler needs: the law of a
sequence of two computations, and the law of drawing until a draw is accepted.
-/

namespace Coup.Support

open scoped ENNReal

universe u v

variable {ι : Type*} {φ : Type u} {α β : Type v}

/-! ## The law of a computation -/

/-- The weight of a list of independent draws. -/
noncomputable def weight (μ : ι → ℝ≥0∞) (draws : List ι) : ℝ≥0∞ :=
  (draws.map μ).prod

@[simp] theorem weight_nil (μ : ι → ℝ≥0∞) : weight μ [] = 1 := rfl

@[simp] theorem weight_append (μ : ι → ℝ≥0∞) (draws more : List ι) :
    weight μ (draws ++ more) = weight μ draws * weight μ more := by
  simp [weight]

@[simp] theorem weight_cons (μ : ι → ℝ≥0∞) (draw : ι) (draws : List ι) :
    weight μ (draw :: draws) = μ draw * weight μ draws := by
  simp [weight]

theorem weight_map {κ : Type*} (μ : ι → ℝ≥0∞) (h : κ → ι) (draws : List κ) :
    weight μ (draws.map h) = weight (fun d => μ (h d)) draws := by
  rw [weight, List.map_map]
  rfl

/-- The computation returns `a` after these draws and not before. -/
structure Ends (f : List ι → Except φ α) (draws : List ι) (a : α) : Prop where
  returns : f draws = .ok a
  needs : ∀ pre, pre <+: draws → pre ≠ draws → ∀ b, f pre ≠ .ok b

/-- How likely the computation is to return `a`. -/
noncomputable def law (μ : ι → ℝ≥0∞) (f : List ι → Except φ α) (a : α) :
    ℝ≥0∞ :=
  tsum fun draws : {draws // Ends f draws a} => weight μ draws

theorem ends_map {f : List ι → Except φ α} {h : α → β}
    (hinj : Function.Injective h) {draws : List ι} {a : α} :
    Ends (fun draws => (f draws).map h) draws (h a) ↔ Ends f draws a := by
  constructor
  · rintro ⟨hreturns, hneeds⟩
    obtain ⟨a', ha', heq⟩ := map_eq_ok.mp hreturns
    refine ⟨hinj heq ▸ ha', fun pre hpre hne b hb => ?_⟩
    exact hneeds pre hpre hne (h b) (map_eq_ok.mpr ⟨b, hb, rfl⟩)
  · rintro ⟨hreturns, hneeds⟩
    refine ⟨map_eq_ok.mpr ⟨a, hreturns, rfl⟩, fun pre hpre hne b hb => ?_⟩
    obtain ⟨b', hb', -⟩ := map_eq_ok.mp hb
    exact hneeds pre hpre hne b' hb'

/-- A function that is applied to the result does not change the law. -/
theorem law_map (μ : ι → ℝ≥0∞) (f : List ι → Except φ α) {h : α → β}
    (hinj : Function.Injective h) (a : α) :
    law μ (fun draws => (f draws).map h) (h a) = law μ f a := by
  have hsame : {draws | Ends (fun draws => (f draws).map h) draws (h a)} =
      {draws | Ends f draws a} := Set.ext fun _ => ends_map hinj
  exact tsum_congr_set_coe (weight μ) hsame

theorem law_eq_zero {μ : ι → ℝ≥0∞} {f : List ι → Except φ α} {a : α}
    (h : ∀ draws, f draws ≠ .ok a) : law μ f a = 0 := by
  have hempty : IsEmpty {draws // Ends f draws a} :=
    ⟨fun draws => h draws draws.2.returns⟩
  exact tsum_empty

/-! ## Computations that hand on what they do not read -/

/-- The computation reads the beginning of the draws and returns the others. -/
def Consumes (f : List ι → Except φ (α × List ι)) : Prop :=
  ∀ draws a rest, f draws = .ok (a, rest) →
    ∃ used, draws = used ++ rest ∧ ∀ more, f (used ++ more) = .ok (a, more)

/-- The result without the draws that are left. -/
def value (f : List ι → Except φ (α × List ι)) (draws : List ι) :
    Except φ α :=
  (f draws).map Prod.fst

theorem value_eq_ok {f : List ι → Except φ (α × List ι)} {draws : List ι}
    {a : α} : value f draws = .ok a ↔ ∃ rest, f draws = .ok (a, rest) := by
  rw [value, map_eq_ok]
  constructor
  · rintro ⟨⟨a', rest⟩, h, rfl⟩
    exact ⟨rest, h⟩
  · rintro ⟨rest, h⟩
    exact ⟨(a, rest), h, rfl⟩

section Consumes

variable {f : List ι → Except φ (α × List ι)}
  {g : α → List ι → Except φ (β × List ι)} {μ : ι → ℝ≥0∞}

theorem consumes_pure (a : α) :
    Consumes fun draws : List ι => (.ok (a, draws) : Except φ _) := by
  intro draws a' rest h
  cases h
  exact ⟨[], rfl, fun _ => rfl⟩

theorem Consumes.bind (hf : Consumes f) (hg : ∀ a, Consumes (g a)) :
    Consumes fun draws => f draws >>= fun r => g r.1 r.2 := by
  intro draws b rest h
  obtain ⟨⟨a, mid⟩, hfirst, hsecond⟩ := bind_eq_ok.mp h
  obtain ⟨used, rfl, hused⟩ := hf draws a mid hfirst
  obtain ⟨used', rfl, hused'⟩ := hg a mid b rest hsecond
  refine ⟨used ++ used', (List.append_assoc ..).symm, fun more => ?_⟩
  have hfirst' := hused (used' ++ more)
  simp only [List.append_assoc, hfirst', bind_ok]
  exact hused' more

/-- A computation that hands on its draws has ended when none are left. -/
theorem Consumes.ends_iff (hf : Consumes f) {draws : List ι} {a : α} :
    Ends (value f) draws a ↔ f draws = .ok (a, []) := by
  constructor
  · intro h
    obtain ⟨rest, hrest⟩ := value_eq_ok.mp h.returns
    obtain ⟨used, rfl, hused⟩ := hf _ a rest hrest
    have hdone := hused []
    rw [List.append_nil] at hdone
    by_cases heq : used = used ++ rest
    · obtain rfl : rest = [] := by simpa using heq
      exact hrest
    · exact absurd (value_eq_ok.mpr ⟨[], hdone⟩)
        (h.needs used (List.prefix_append ..) heq a)
  · intro h
    refine ⟨value_eq_ok.mpr ⟨[], h⟩, ?_⟩
    rintro pre ⟨more, rfl⟩ hne b hb
    obtain ⟨rest, hrest⟩ := value_eq_ok.mp hb
    obtain ⟨used, rfl, hused⟩ := hf pre b rest hrest
    have hall := hused (rest ++ more)
    rw [← List.append_assoc, h] at hall
    injection hall with hpair
    obtain ⟨-, hnil⟩ := Prod.mk.inj hpair
    obtain ⟨rfl, rfl⟩ := List.append_eq_nil_iff.mp hnil.symm
    simp at hne

theorem Consumes.law_eq (hf : Consumes f) (a : α) :
    law μ (value f) a =
      tsum fun draws : {draws // f draws = .ok (a, [])} => weight μ draws := by
  have hsame : {draws | Ends (value f) draws a} =
      {draws | f draws = .ok (a, [])} := Set.ext fun _ => hf.ends_iff
  exact tsum_congr_set_coe (weight μ) hsame

/-- The draws of a sequence are those of its parts. -/
noncomputable def splitDraws (hf : Consumes f)
    (g : α → List ι → Except φ (β × List ι)) (b : β) :
    (Σ a, {draws // f draws = .ok (a, [])} ×
      {draws // g a draws = .ok (b, [])}) ≃
      {draws // (f draws >>= fun r => g r.1 r.2) = .ok (b, [])} := by
  have happend {a : α} {first : List ι} (h : f first = .ok (a, []))
      (more : List ι) : f (first ++ more) = .ok (a, more) := by
    obtain ⟨used, hsplit, hused⟩ := hf first a [] h
    rw [List.append_nil] at hsplit
    rw [hsplit, hused]
  refine Equiv.ofBijective
    (fun p => ⟨p.2.1.1 ++ p.2.2.1, ?_⟩) ⟨?_, ?_⟩
  · rw [happend p.2.1.2, bind_ok]
    exact p.2.2.2
  · rintro ⟨a, ⟨first, hfirst⟩, ⟨second, hsecond⟩⟩
      ⟨a', ⟨first', hfirst'⟩, ⟨second', hsecond'⟩⟩ heq
    have hdraws : first ++ second = first' ++ second' :=
      congrArg Subtype.val heq
    have hresult := happend hfirst second
    rw [hdraws, happend hfirst' second'] at hresult
    cases hresult
    obtain rfl := List.append_cancel_right hdraws
    rfl
  · rintro ⟨draws, h⟩
    obtain ⟨⟨a, mid⟩, hfirst, hsecond⟩ := bind_eq_ok.mp h
    obtain ⟨used, rfl, hused⟩ := hf draws a mid hfirst
    have hdone := hused []
    rw [List.append_nil] at hdone
    exact ⟨⟨a, ⟨used, hdone⟩, ⟨mid, hsecond⟩⟩, rfl⟩

/-- The law of a sequence sums over what its first part returns. -/
theorem law_bind (hf : Consumes f) (hg : ∀ a, Consumes (g a)) (b : β) :
    law μ (value fun draws => f draws >>= fun r => g r.1 r.2) b =
      tsum fun a => law μ (value f) a * law μ (value (g a)) b := by
  rw [(hf.bind hg).law_eq, ← (splitDraws hf g b).tsum_eq, ENNReal.tsum_sigma']
  apply tsum_congr
  intro a
  rw [hf.law_eq, (hg a).law_eq, ENNReal.tsum_prod', ← ENNReal.tsum_mul_right]
  apply tsum_congr
  intro first
  rw [← ENNReal.tsum_mul_left]
  exact tsum_congr fun second => weight_append μ first.1 second.1

end Consumes

/-! ## Drawing until a draw is accepted -/

/-- Draw until a draw is accepted, and get stuck when the draws end. -/
def retry (stuck : φ) (accept : ι → Option α) :
    List ι → Except φ (α × List ι)
  | [] => .error stuck
  | draw :: draws =>
      match accept draw with
      | some a => .ok (a, draws)
      | none => retry stuck accept draws

section Retry

variable {stuck : φ} {accept : ι → Option α} {μ : ι → ℝ≥0∞}

theorem retry_append {refused : List ι} (h : ∀ d ∈ refused, accept d = none)
    (draws : List ι) :
    retry stuck accept (refused ++ draws) = retry stuck accept draws := by
  induction refused with
  | nil => rfl
  | cons d refused ih =>
      rw [List.cons_append, retry, h d List.mem_cons_self]
      exact ih fun d' hd' => h d' (List.mem_cons_of_mem _ hd')

/-- The loop returns at the first draw that is accepted. -/
theorem retry_eq_ok {draws rest : List ι} {a : α} :
    retry stuck accept draws = .ok (a, rest) ↔
      ∃ refused draw, draws = refused ++ draw :: rest ∧
        (∀ d ∈ refused, accept d = none) ∧ accept draw = some a := by
  constructor
  · intro h
    induction draws with
    | nil => cases h
    | cons d draws ih =>
        rw [retry] at h
        split at h
        next a' ha =>
          cases h
          exact ⟨[], d, rfl, by simp, ha⟩
        next hd =>
          obtain ⟨refused, draw, rfl, hrefused, hdraw⟩ := ih h
          exact ⟨d :: refused, draw, rfl, by simpa [hd] using hrefused, hdraw⟩
  · rintro ⟨refused, draw, rfl, hrefused, hdraw⟩
    rw [retry_append hrefused, retry, hdraw]

theorem consumes_retry (stuck : φ) (accept : ι → Option α) :
    Consumes (retry stuck accept) := by
  intro draws a rest h
  obtain ⟨refused, draw, rfl, hrefused, hdraw⟩ := retry_eq_ok.mp h
  refine ⟨refused ++ [draw], by simp, fun more => ?_⟩
  exact retry_eq_ok.mpr ⟨refused, draw, by simp, hrefused, hdraw⟩

/-- A draw sequence that ends the loop is a list of refused draws and one that
is accepted. -/
noncomputable def retryDraws (stuck : φ) (accept : ι → Option α) (a : α) :
    (List {d // accept d = none} × {d // accept d = some a}) ≃
      {draws // retry stuck accept draws = .ok (a, [])} := by
  refine Equiv.ofBijective
    (fun p => ⟨p.1.map Subtype.val ++ [p.2.1], ?_⟩) ⟨?_, ?_⟩
  · refine retry_eq_ok.mpr ⟨_, p.2.1, rfl, ?_, p.2.2⟩
    intro d hd
    obtain ⟨d', -, rfl⟩ := List.mem_map.mp hd
    exact d'.2
  · rintro ⟨refused, draw⟩ ⟨refused', draw'⟩ heq
    obtain ⟨hrefused, hdraw⟩ :=
      List.append_inj' (congrArg Subtype.val heq) rfl
    have hsame := List.map_injective_iff.mpr Subtype.val_injective hrefused
    have hlast : draw = draw' := Subtype.ext (by simpa using hdraw)
    rw [Prod.mk.injEq]
    exact ⟨hsame, hlast⟩
  · rintro ⟨draws, h⟩
    obtain ⟨refused, draw, rfl, hrefused, hdraw⟩ := retry_eq_ok.mp h
    refine ⟨(refused.attachWith _ hrefused, ⟨draw, hdraw⟩), ?_⟩
    simp

/-- The weights of the lists of one length add up to a power. -/
theorem tsum_weight_ofFn {κ : Type*} (μ : κ → ℝ≥0∞) (k : ℕ) :
    (tsum fun draws : Fin k → κ => weight μ (List.ofFn draws)) =
      tsum μ ^ k := by
  induction k with
  | zero =>
      rw [tsum_eq_single (fun i => i.elim0)]
      · simp
      · intro draws hne
        exact absurd (funext fun i => i.elim0) hne
  | succ k ih =>
      rw [← (Fin.consEquiv fun _ => κ).tsum_eq, ENNReal.tsum_prod', pow_succ',
        ← ENNReal.tsum_mul_right]
      apply tsum_congr
      intro i
      rw [← ih, ← ENNReal.tsum_mul_left]
      apply tsum_congr
      intro draws
      simp [Fin.consEquiv, List.ofFn_succ]

/-- The weights of all lists form a geometric series. -/
theorem tsum_weight {κ : Type*} (μ : κ → ℝ≥0∞) :
    tsum (weight μ) = (1 - tsum μ)⁻¹ := by
  rw [← List.equivSigmaTuple.symm.tsum_eq, ENNReal.tsum_sigma',
    ← ENNReal.tsum_geometric]
  apply tsum_congr
  intro k
  rw [← tsum_weight_ofFn]
  rfl

/-- The law of drawing until a draw is accepted. -/
theorem law_retry (a : α) :
    law μ (value (retry stuck accept)) a =
      (1 - tsum fun d : {d // accept d = none} => μ d)⁻¹ *
        tsum fun d : {d // accept d = some a} => μ d := by
  rw [(consumes_retry stuck accept).law_eq,
    ← (retryDraws stuck accept a).tsum_eq, ENNReal.tsum_prod',
    ← tsum_weight, ← ENNReal.tsum_mul_right]
  apply tsum_congr
  intro refused
  rw [← ENNReal.tsum_mul_left]
  apply tsum_congr
  intro draw
  calc
    weight μ (refused.map Subtype.val ++ [draw.1]) =
        weight μ (refused.map Subtype.val) * μ draw.1 := by
      rw [weight_append, weight_cons, weight_nil, mul_one]
    _ = weight (fun d => μ d.1) refused * μ draw.1 := by
      rw [weight_map]

end Retry

/-! ## Uniform draws -/

/-- The weights of a draw that is uniform among the numbers below `n`. -/
noncomputable def uniform (n draw : ℕ) : ℝ≥0∞ :=
  if draw < n then (n : ℝ≥0∞)⁻¹ else 0

/-- The number of draws below `n` with a property. -/
def favourable (n : ℕ) (p : ℕ → Prop) [DecidablePred p] : ℕ :=
  ((Finset.range n).filter p).card

theorem tsum_uniform (n : ℕ) (p : ℕ → Prop) [DecidablePred p] :
    (tsum fun draw : {draw // p draw} => uniform n draw) =
      favourable n p / n := by
  have hsum : (tsum fun draw : {draw // p draw} => uniform n draw) =
      tsum (Set.indicator {draw | p draw} (uniform n)) :=
    tsum_subtype {draw | p draw} (uniform n)
  have houtside : ∀ draw ∉ (Finset.range n).filter p,
      Set.indicator {draw | p draw} (uniform n) draw = 0 := by
    intro draw hdraw
    simp only [Finset.mem_filter, Finset.mem_range, not_and] at hdraw
    by_cases hlt : draw < n
    · simp [hdraw hlt]
    · simp [Set.indicator, uniform, hlt]
  have hinside : ∀ draw ∈ (Finset.range n).filter p,
      Set.indicator {draw | p draw} (uniform n) draw = (n : ℝ≥0∞)⁻¹ := by
    intro draw hdraw
    obtain ⟨hlt, hp⟩ := Finset.mem_filter.mp hdraw
    simp [hp, uniform, Finset.mem_range.mp hlt]
  rw [hsum, tsum_eq_sum houtside, Finset.sum_congr rfl hinside,
    Finset.sum_const, nsmul_eq_mul, div_eq_mul_inv, favourable]

/-- The positions of a list whose entries have a property. -/
theorem favourable_any (l : List α) (p : α → Bool) :
    favourable l.length (fun d => (l[d]?).any p = true) = l.countP p := by
  induction l using List.reverseRecOn with
  | nil => rfl
  | append_singleton l b ih =>
      have hfirst : (Finset.range l.length).filter
          (fun d => ((l ++ [b])[d]?).any p = true) =
            (Finset.range l.length).filter fun d => (l[d]?).any p = true := by
        apply Finset.filter_congr
        intro d hd
        rw [List.getElem?_append_left (Finset.mem_range.mp hd)]
      rw [favourable] at ih ⊢
      rw [List.length_append, List.length_singleton, Finset.range_add_one,
        Finset.filter_insert, hfirst, List.getElem?_concat_length,
        List.countP_append, List.countP_singleton, Option.any_some]
      by_cases h : p b = true
      · rw [if_pos h, if_pos h, Finset.card_insert_of_notMem (by simp), ih]
      · rw [if_neg h, if_neg h, ih, add_zero]

/-- Every draw below `n` is accepted or refused. -/
theorem favourable_add (n : ℕ) {accept : ℕ → Option α} :
    favourable n (fun d => accept d = none) +
      favourable n (fun d => (accept d).isSome) = n := by
  have hsplit := Finset.card_filter_add_card_filter_not
    (s := Finset.range n) fun d => accept d = none
  rw [Finset.card_range] at hsplit
  simpa [favourable, Option.ne_none_iff_isSome] using hsplit

/-- Among the accepted draws all are equally likely. -/
theorem law_retry_uniform [DecidableEq α] {stuck : φ} (n : ℕ)
    (accept : ℕ → Option α) (a : α) :
    law (uniform n) (value (retry stuck accept)) a =
      favourable n (fun d => accept d = some a) /
        favourable n (fun d => (accept d).isSome) := by
  rw [law_retry, tsum_uniform n fun d => accept d = none,
    tsum_uniform n fun d => accept d = some a]
  rcases Nat.eq_zero_or_pos n with rfl | hpos
  · simp [favourable]
  have hn : (n : ℝ≥0∞) ≠ 0 := Nat.cast_ne_zero.mpr hpos.ne'
  have hn' : (n : ℝ≥0∞) ≠ ⊤ := ENNReal.natCast_ne_top n
  have hsplit : (1 : ℝ≥0∞) =
      favourable n (fun d => (accept d).isSome) / n +
        favourable n (fun d => accept d = none) / n := by
    rw [← ENNReal.add_div, ← Nat.cast_add, add_comm, favourable_add,
      ENNReal.div_self hn hn']
  have hrefused :
      (favourable n (fun d => accept d = none) : ℝ≥0∞) / n ≠ ⊤ :=
    ENNReal.div_ne_top (ENNReal.natCast_ne_top _) hn
  rw [ENNReal.sub_eq_of_eq_add hrefused hsplit,
    ENNReal.inv_div (Or.inl hn') (Or.inl hn)]
  simp only [div_eq_mul_inv]
  set hits := (favourable n fun d => accept d = some a : ℝ≥0∞)
  set all := (favourable n fun d => (accept d).isSome : ℝ≥0∞)
  calc
    (n : ℝ≥0∞) * all⁻¹ * (hits * (n : ℝ≥0∞)⁻¹) =
        hits * all⁻¹ * (n * (n : ℝ≥0∞)⁻¹) := by ring
    _ = hits * all⁻¹ := by rw [ENNReal.mul_inv_cancel hn hn', mul_one]

/-- Equal shares of the elements of a list add up to one. -/
theorem tsum_share [DecidableEq α] {l : List α} (hnodup : l.Nodup)
    (hne : l ≠ []) :
    (tsum fun a => if a ∈ l then (l.length : ℝ≥0∞)⁻¹ else 0) = 1 := by
  have houtside : ∀ a ∉ l.toFinset,
      (if a ∈ l then (l.length : ℝ≥0∞)⁻¹ else 0) = 0 := by
    intro a ha
    rw [if_neg (by simpa using ha)]
  have hinside : ∀ a ∈ l.toFinset,
      (if a ∈ l then (l.length : ℝ≥0∞)⁻¹ else 0) =
        (l.length : ℝ≥0∞)⁻¹ := by
    intro a ha
    rw [if_pos (by simpa using ha)]
  rw [tsum_eq_sum houtside, Finset.sum_congr rfl hinside, Finset.sum_const,
    List.toFinset_card_of_nodup hnodup, nsmul_eq_mul,
    ENNReal.mul_inv_cancel (by simpa using hne) (by simp)]

end Coup.Support
