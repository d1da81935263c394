import Mathlib.Data.List.Basic
import Mathlib.Data.List.Induction

/-!
# Runs of a fallible step function

A step function `step : σ → ε → Except φ σ` takes a state and an event and
either moves on or stops with a fault.  This module names nothing of any
particular system: it defines the run over a list of events, the predicate
that holds at every step of a run, and the induction rules that turn a step
lemma into a statement about whole runs.
-/

namespace Coup.Support

universe u v

variable {σ : Type u} {ε φ : Type*} {α β : Type v}

/-! ## Inverting a successful computation -/

theorem bind_eq_ok {c : Except φ α} {k : α → Except φ β} {b : β} :
    (c >>= k) = .ok b ↔ ∃ a, c = .ok a ∧ k a = .ok b := by
  constructor
  · intro h
    cases hc : c with
    | error f => rw [hc] at h; cases h
    | ok a => exact ⟨a, rfl, by simpa [hc, bind, Except.bind] using h⟩
  · rintro ⟨a, rfl, hk⟩
    exact hk

theorem bind_ok (a : α) (f : α → Except φ β) :
    ((.ok a : Except φ α) >>= f) = f a := rfl

/-- What is done with the result adds no fault. -/
theorem bind_ok_eq_error {c : Except φ α} {g : α → β} {f : φ} :
    (c >>= fun a => .ok (g a)) = .error f ↔ c = .error f := by
  cases c with
  | error f' =>
      constructor <;>
        · intro h
          cases h
          rfl
  | ok a => exact iff_of_false (fun h => by cases h) fun h => by cases h

theorem pure_eq_ok {a b : α} :
    (pure a : Except φ α) = .ok b ↔ a = b :=
  Except.ok.injEq a b ▸ Iff.rfl

/-- Turn a missing value into a fault. -/
def orFault (f : φ) : Option α → Except φ α
  | some a => .ok a
  | none => .error f

@[simp] theorem orFault_eq_ok {f : φ} {o : Option α} {a : α} :
    orFault f o = .ok a ↔ o = some a := by
  cases o <;> simp [orFault]

theorem toOption_eq_some {c : Except φ α} {a : α} :
    c.toOption = some a ↔ c = .ok a := by
  cases c <;> simp [Except.toOption]

/-- If the second part of a computation goes through anyway, then the
computation does exactly if its first part does. -/
theorem bind_succeeds {c : Except φ α} {k : α → Except φ β}
    (hk : ∀ a, ∃ b, k a = .ok b) :
    (∃ b, c >>= k = .ok b) ↔ ∃ a, c = .ok a := by
  constructor
  · rintro ⟨b, h⟩
    obtain ⟨a, ha, -⟩ := bind_eq_ok.mp h
    exact ⟨a, ha⟩
  · rintro ⟨a, rfl⟩
    exact hk a

/-- A computation goes through if both its branches do. -/
theorem ite_succeeds {c d : Except φ α} {p : Prop} [Decidable p]
    (hc : ∃ a, c = .ok a) (hd : ∃ a, d = .ok a) :
    ∃ a, (if p then c else d) = .ok a := by
  split
  next => exact hc
  next => exact hd

/-- Reading a list goes through exactly if the index is in range. -/
theorem orFault_getElem?_succeeds {f : φ} {l : List α} {k : ℕ} :
    (∃ a, orFault f l[k]? = .ok a) ↔ k < l.length := by
  constructor
  · rintro ⟨a, h⟩
    exact (List.getElem?_eq_some_iff.mp (orFault_eq_ok.mp h)).1
  · intro h
    exact ⟨l[k], orFault_eq_ok.mpr (List.getElem?_eq_getElem h)⟩

/-! ## Avoiding a fault -/

/-- The computation does not stop with this fault. -/
def Avoids (f : φ) (c : Except φ α) : Prop := c ≠ .error f

section Avoids

variable {f f' : φ} {c : Except φ α}

theorem avoids_ok (a : α) : Avoids f (.ok a) := by
  intro h
  cases h

theorem avoids_error (h : f' ≠ f) : Avoids f (.error f' : Except φ α) := by
  intro heq
  cases heq
  exact h rfl

/-- A computation avoids a fault if its first part does, and its second part
does for whatever the first part can return. -/
theorem Avoids.bind {k : α → Except φ β} (hc : Avoids f c)
    (hk : ∀ a, c = .ok a → Avoids f (k a)) : Avoids f (c >>= k) := by
  cases hc' : c with
  | error f' =>
      apply avoids_error
      rintro rfl
      exact hc hc'
  | ok a => exact hk a hc'

theorem Avoids.ite {d : Except φ α} {p : Prop} [Decidable p]
    (hc : p → Avoids f c) (hd : ¬ p → Avoids f d) :
    Avoids f (if p then c else d) := by
  split
  next h => exact hc h
  next h => exact hd h

theorem avoids_orFault {o : Option α} (h : o ≠ none) :
    Avoids f (orFault f' o) := by
  cases o with
  | none => exact absurd rfl h
  | some a => exact avoids_ok a

theorem avoids_orFault_of_ne {o : Option α} (h : f' ≠ f) :
    Avoids f (orFault f' o) := by
  cases o with
  | none => exact avoids_error h
  | some a => exact avoids_ok a

theorem avoids_getElem? {l : List α} {k : ℕ} (h : k < l.length) :
    Avoids f (orFault f' l[k]?) :=
  avoids_orFault (by simp [h])

end Avoids

/-! ## Ensuring a postcondition -/

/-- Whatever the computation returns has the property. -/
def Ensures (Q : α → Prop) (c : Except φ α) : Prop := ∀ a, c = .ok a → Q a

section Ensures

variable {Q : α → Prop} {c : Except φ α}

theorem ensures_ok {a : α} (h : Q a) : Ensures Q (.ok a : Except φ α) := by
  intro b hb
  cases hb
  exact h

theorem ensures_error (f : φ) : Ensures Q (.error f) := by
  intro a ha
  cases ha

/-- A computation ensures what its second part does for whatever its first
part can return. -/
theorem Ensures.bind {R : β → Prop} {k : α → Except φ β}
    (hk : ∀ a, c = .ok a → Ensures R (k a)) : Ensures R (c >>= k) := by
  intro b hb
  obtain ⟨a, ha, hb⟩ := bind_eq_ok.mp hb
  exact hk a ha b hb

theorem Ensures.ite {d : Except φ α} {p : Prop} [Decidable p]
    (hc : p → Ensures Q c) (hd : ¬ p → Ensures Q d) :
    Ensures Q (if p then c else d) := by
  split
  next h => exact hc h
  next h => exact hd h

end Ensures

/-! ## Computing on related states -/

/-- Two computations whose first parts agree up to `g`, and whose second parts
then agree up to `h`, agree up to `h`. -/
theorem bind_map_congr {α' β' : Type v} {x : Except φ α} {x' : Except φ α'}
    {g : α → α'} {h : β → β'} {k : α → Except φ β} {k' : α' → Except φ β'}
    (hx : x' = x.map g) (hk : ∀ a, x = .ok a → k' (g a) = (k a).map h) :
    x' >>= k' = (x >>= k).map h := by
  subst hx
  cases hx : x with
  | error f => rfl
  | ok a => exact hk a hx

theorem bind_congr_map {β' : Type v} {x : Except φ α} {h : β → β'}
    {k : α → Except φ β} {k' : α → Except φ β'}
    (hk : ∀ a, x = .ok a → k' a = (k a).map h) :
    x >>= k' = (x >>= k).map h := by
  cases hx : x with
  | error f => rfl
  | ok a => exact hk a hx

theorem ite_map_congr {α' : Type*} {c c' : Prop} [Decidable c] [Decidable c']
    {x y : Except φ α} {x' y' : Except φ α'} {g : α → α'} (hc : c' ↔ c)
    (hx : c → x' = x.map g) (hy : ¬ c → y' = y.map g) :
    (if c' then x' else y') = (if c then x else y).map g := by
  by_cases h : c
  · rw [if_pos h, if_pos (hc.mpr h), hx h]
  · rw [if_neg h, if_neg (fun h' => h (hc.mp h')), hy h]

theorem map_eq_ok {α' : Type*} {x : Except φ α} {g : α → α'} {b : α'} :
    x.map g = .ok b ↔ ∃ a, x = .ok a ∧ g a = b := by
  cases x with
  | error f => simp [Except.map]
  | ok a => simp [Except.map]

/-! ## Runs -/

/-- Feed a list of events to the step function, stopping at the first fault. -/
def run (step : σ → ε → Except φ σ) : σ → List ε → Except φ σ
  | s, [] => .ok s
  | s, e :: es => step s e >>= fun s' => run step s' es

variable {step : σ → ε → Except φ σ}

@[simp] theorem run_nil (s : σ) : run step s [] = .ok s := rfl

theorem run_cons (s : σ) (e : ε) (es : List ε) :
    run step s (e :: es) = step s e >>= fun s' => run step s' es := rfl

theorem run_append (s : σ) (es es' : List ε) :
    run step s (es ++ es') = run step s es >>= fun s' => run step s' es' := by
  induction es generalizing s with
  | nil => rfl
  | cons e es ih =>
      simp only [List.cons_append, run_cons]
      cases step s e with
      | error f => rfl
      | ok s' => exact ih s'

theorem run_append_eq_ok {s s'' : σ} {es es' : List ε} :
    run step s (es ++ es') = .ok s'' ↔
      ∃ s', run step s es = .ok s' ∧ run step s' es' = .ok s'' := by
  rw [run_append, bind_eq_ok]

theorem run_concat_eq_ok {s s'' : σ} {es : List ε} {e : ε} :
    run step s (es ++ [e]) = .ok s'' ↔
      ∃ s', run step s es = .ok s' ∧ step s' e = .ok s'' := by
  rw [run_append_eq_ok]
  constructor
  · rintro ⟨s', hrun, hlast⟩
    rw [run_cons, bind_eq_ok] at hlast
    obtain ⟨t, hstep, hnil⟩ := hlast
    cases hnil
    exact ⟨s', hrun, hstep⟩
  · rintro ⟨s', hrun, hstep⟩
    exact ⟨s', hrun, by rw [run_cons, hstep, bind_ok, run_nil]⟩

/-- Evaluate a relation between the last two states of a run of at least one
step. -/
def lastStep (step : σ → ε → Except φ σ) (start : Except φ σ) (es : List ε)
    (e : ε) (P : σ → σ → Bool) : Bool :=
  match start >>= fun s₀ => run step s₀ es with
  | .error _ => false
  | .ok s =>
      match step s e with
      | .error _ => false
      | .ok s' => P s s'

theorem exists_of_lastStep {start : Except φ σ} {es : List ε} {e : ε}
    {P : σ → σ → Bool} (h : lastStep step start es e P = true) :
    ∃ s₀ s s', start = .ok s₀ ∧ run step s₀ es = .ok s ∧
      step s e = .ok s' ∧ P s s' = true := by
  unfold lastStep at h
  split at h
  next => cases h
  next s hrun =>
    rw [bind_eq_ok] at hrun
    obtain ⟨s₀, hstart, hrun⟩ := hrun
    split at h
    next => cases h
    next s' hstep => exact ⟨s₀, s, s', hstart, hrun, hstep, h⟩

/-- `P` holds at every step that the run from `s` over `es` takes. -/
def EachStep (step : σ → ε → Except φ σ) (P : σ → ε → σ → Prop)
    (s : σ) (es : List ε) : Prop :=
  ∀ pre e post m m', es = pre ++ e :: post →
    run step s pre = .ok m → step m e = .ok m' → P m e m'

theorem eachStep_concat {P : σ → ε → σ → Prop} {s : σ} {es : List ε} {e : ε}
    (h : EachStep step P s (es ++ [e])) : EachStep step P s es := by
  intro pre e' post m m' hes hrun hstep
  exact h pre e' (post ++ [e]) m m' (by simp [hes]) hrun hstep

theorem eachStep_last {P : σ → ε → σ → Prop} {s m m' : σ}
    {es : List ε} {e : ε} (h : EachStep step P s (es ++ [e]))
    (hrun : run step s es = .ok m) (hstep : step m e = .ok m') : P m e m' :=
  h es e [] m m' rfl hrun hstep

theorem EachStep.imp {P Q : σ → ε → σ → Prop} {s : σ} {es : List ε}
    (h : EachStep step P s es)
    (hPQ : ∀ pre e m m', pre ++ [e] <+: es → run step s pre = .ok m →
      step m e = .ok m' → P m e m' → Q m e m') : EachStep step Q s es := by
  intro pre e post m m' hes hrun hstep
  refine hPQ pre e m m' ⟨post, by simp [hes]⟩ hrun hstep ?_
  exact h pre e post m m' hes hrun hstep

theorem eachStep_nil {P : σ → ε → σ → Prop} {s : σ} :
    EachStep step P s [] := by
  intro pre e post m m' hes
  cases pre <;> cases hes

theorem eachStep_cons {P : σ → ε → σ → Prop} {s s' : σ} {e : ε} {es : List ε}
    (hstep : step s e = .ok s') (hP : P s e s') (h : EachStep step P s' es) :
    EachStep step P s (e :: es) := by
  intro pre e' post m m' hes hrun hlast
  cases pre with
  | nil =>
      cases hes
      cases hrun
      rw [hstep] at hlast
      cases hlast
      exact hP
  | cons d pre =>
      cases hes
      rw [run_cons, hstep, bind_ok] at hrun
      exact h pre e' post m m' rfl hrun hlast

theorem eachStep_head {P : σ → ε → σ → Prop} {s s' : σ} {e : ε} {es : List ε}
    (h : EachStep step P s (e :: es)) (hstep : step s e = .ok s') :
    P s e s' ∧ EachStep step P s' es := by
  refine ⟨h [] e es s s' rfl rfl hstep, ?_⟩
  intro pre e' post m m' hes hrun hlast
  refine h (e :: pre) e' post m m' (by rw [hes]; rfl) ?_ hlast
  rw [run_cons, hstep, bind_ok, hrun]

/-- Evaluate a run and check `P` at its steps and `Q` at its end. -/
def checkRun (step : σ → ε → Except φ σ) (P : σ → ε → σ → Bool)
    (Q : σ → Bool) : σ → List ε → Bool
  | s, [] => Q s
  | s, e :: es =>
      match step s e with
      | .error _ => false
      | .ok s' => P s e s' && checkRun step P Q s' es

theorem checkRun_sound {P : σ → ε → σ → Bool} {Q : σ → Bool} {s : σ}
    {es : List ε} (h : checkRun step P Q s es = true) :
    ∃ s', run step s es = .ok s' ∧
      EachStep step (fun m e m' => P m e m' = true) s es ∧ Q s' = true := by
  induction es generalizing s with
  | nil => exact ⟨s, rfl, eachStep_nil, h⟩
  | cons e es ih =>
      unfold checkRun at h
      split at h
      next => cases h
      next s₁ hstep =>
        obtain ⟨hP, h⟩ := Bool.and_eq_true_iff.mp h
        obtain ⟨s', hrun, heach, hQ⟩ := ih h
        refine ⟨s', ?_, eachStep_cons hstep hP heach, hQ⟩
        rw [run_cons, hstep, bind_ok, hrun]

/-- `checkRun` from a start that is computed as well. -/
def checkFrom (step : σ → ε → Except φ σ) (P : σ → ε → σ → Bool)
    (Q : σ → Bool) (start : Except φ σ) (es : List ε) : Bool :=
  match start with
  | .error _ => false
  | .ok s => checkRun step P Q s es

theorem exists_of_checkFrom {P : σ → ε → σ → Bool} {Q : σ → Bool}
    {start : Except φ σ} {es : List ε}
    (h : checkFrom step P Q start es = true) :
    ∃ s s', start = .ok s ∧ run step s es = .ok s' ∧
      EachStep step (fun m e m' => P m e m' = true) s es ∧ Q s' = true := by
  unfold checkFrom at h
  split at h
  next => cases h
  next s =>
    obtain ⟨s', hrun, heach, hQ⟩ := checkRun_sound h
    exact ⟨s, s', rfl, hrun, heach, hQ⟩

/-- A property of the start that every admitted step keeps holds wherever an
admitted run ends. -/
theorem run_invariant_of_eachStep {P : σ → ε → σ → Prop} {I : σ → Prop}
    (hkeep : ∀ s e s', I s → step s e = .ok s' → P s e s' → I s')
    {s s' : σ} {es : List ε} (hrun : run step s es = .ok s')
    (heach : EachStep step P s es) (hstart : I s) : I s' := by
  induction es using List.reverseRecOn generalizing s' with
  | nil => cases hrun; exact hstart
  | append_singleton es e ih =>
      obtain ⟨m, hm, hstep⟩ := run_concat_eq_ok.mp hrun
      exact hkeep m e s' (ih hm (eachStep_concat heach)) hstep
        (eachStep_last heach hm hstep)

/-- A property of the start that every step keeps holds wherever a run ends. -/
theorem run_invariant {I : σ → Prop}
    (hkeep : ∀ s e s', I s → step s e = .ok s' → I s')
    {s s' : σ} {es : List ε} (hrun : run step s es = .ok s')
    (hstart : I s) : I s' :=
  run_invariant_of_eachStep (P := fun _ _ _ => True)
    (fun s e s' hI hstep _ => hkeep s e s' hI hstep) hrun
    (fun _ _ _ _ _ _ _ _ => trivial) hstart

/-- A fault that no step from a state with the invariant ends in does not end
a run either. -/
theorem avoids_run {I : σ → Prop} {f : φ}
    (hkeep : ∀ s e s', I s → step s e = .ok s' → I s')
    (havoids : ∀ s e, I s → Avoids f (step s e)) {s : σ} (hs : I s)
    (es : List ε) : Avoids f (run step s es) := by
  induction es generalizing s with
  | nil => exact avoids_ok s
  | cons e es ih =>
      rw [run_cons]
      apply (havoids s e hs).bind
      intro s' hstep
      exact ih (hkeep s e s' hs hstep)

/-- A run ends in a fault exactly if it comes to a step that does. -/
theorem run_eq_error {f : φ} {s : σ} {es : List ε} :
    run step s es = .error f ↔
      ∃ pre e post m, es = pre ++ e :: post ∧ run step s pre = .ok m ∧
        step m e = .error f := by
  constructor
  · intro h
    induction es generalizing s with
    | nil => cases h
    | cons e es ih =>
        cases hstep : step s e with
        | error f' =>
            rw [run_cons, hstep] at h
            cases h
            exact ⟨[], e, es, s, rfl, rfl, hstep⟩
        | ok s' =>
            rw [run_cons, hstep, bind_ok] at h
            obtain ⟨pre, e', post, m, rfl, hrun, hm⟩ := ih h
            refine ⟨e :: pre, e', post, m, rfl, ?_, hm⟩
            rw [run_cons, hstep, bind_ok, hrun]
  · rintro ⟨pre, e, post, m, rfl, hrun, hm⟩
    rw [run_append, hrun, bind_ok, run_cons, hm]
    rfl

/-- If a step from a state with the invariant ends in a fault exactly when it is
a bad one, then a run does exactly when it comes to a bad step. -/
theorem run_error_iff {I : σ → Prop} {f : φ} {Bad : σ → ε → Prop}
    (hkeep : ∀ s e s', I s → step s e = .ok s' → I s')
    (hbad : ∀ s e, I s → (step s e = .error f ↔ Bad s e)) {s : σ} (hs : I s)
    (es : List ε) :
    run step s es = .error f ↔
      ∃ pre e post m, es = pre ++ e :: post ∧ run step s pre = .ok m ∧
        Bad m e := by
  rw [run_eq_error]
  constructor
  · rintro ⟨pre, e, post, m, hes, hrun, hm⟩
    have hI := run_invariant hkeep hrun hs
    exact ⟨pre, e, post, m, hes, hrun, (hbad m e hI).mp hm⟩
  · rintro ⟨pre, e, post, m, hes, hrun, hm⟩
    have hI := run_invariant hkeep hrun hs
    exact ⟨pre, e, post, m, hes, hrun, (hbad m e hI).mpr hm⟩

/-! ## Reachability -/

/-- Some run leads from one state to the other. -/
def Reaches (step : σ → ε → Except φ σ) (s s' : σ) : Prop :=
  ∃ es, run step s es = .ok s'

namespace Reaches

variable {s s' s'' : σ} {e : ε}

theorem refl (s : σ) : Reaches step s s := ⟨[], rfl⟩

theorem trans (h : Reaches step s s') (h' : Reaches step s' s'') :
    Reaches step s s'' := by
  obtain ⟨es, hes⟩ := h
  obtain ⟨es', hes'⟩ := h'
  exact ⟨es ++ es', run_append_eq_ok.mpr ⟨s', hes, hes'⟩⟩

/-- One step, and then the rest. -/
theorem head (hstep : step s e = .ok s') (h : Reaches step s' s'') :
    Reaches step s s'' := by
  obtain ⟨es, hes⟩ := h
  exact ⟨e :: es, by rw [run_cons, hstep, bind_ok, hes]⟩

theorem single (hstep : step s e = .ok s') : Reaches step s s' :=
  head hstep (.refl s')

end Reaches

/-- If every step of a system is matched by a run of another one, then so is
every run. -/
theorem run_reaches {σ' ε' : Type*} {step' : σ' → ε' → Except φ σ'}
    {I : σ → Prop} (f : σ → σ')
    (hkeep : ∀ s e s', I s → step s e = .ok s' → I s')
    (hmatch : ∀ s e s', I s → step s e = .ok s' →
      Reaches step' (f s) (f s'))
    {s s' : σ} {es : List ε} (hrun : run step s es = .ok s') (hstart : I s) :
    Reaches step' (f s) (f s') := by
  induction es generalizing s with
  | nil =>
      cases hrun
      exact .refl _
  | cons e es ih =>
      rw [run_cons, bind_eq_ok] at hrun
      obtain ⟨m, hstep, hrun⟩ := hrun
      exact (hmatch s e m hstart hstep).trans
        (ih hrun (hkeep s e m hstart hstep))

/-! ## Hidden events -/

/-- If the admitted hidden events do not change what is seen of a state, and
the others do the same to states that look alike, then an admitted run looks
the same without its hidden events. -/
theorem run_filter {ω : Type*} {keep : ε → Bool} {I : σ → Prop}
    {P : σ → ε → σ → Prop} {view : σ → ω}
    (hkeep : ∀ s e s', I s → keep e = true → step s e = .ok s' → I s')
    (hhide : ∀ s e s', I s → keep e = false → P s e s' →
      step s e = .ok s' → I s' ∧ view s' = view s)
    (hshow : ∀ s t e, I s → I t → view s = view t → keep e = true →
      (step s e).map view = (step t e).map view)
    {s s' t : σ} {es : List ε} (hrun : run step s es = .ok s')
    (heach : EachStep step P s es) (hs : I s) (ht : I t)
    (hview : view s = view t) :
    ∃ t', run step t (es.filter keep) = .ok t' ∧ I t' ∧
      view s' = view t' := by
  induction es generalizing s t with
  | nil =>
      cases hrun
      exact ⟨t, rfl, ht, hview⟩
  | cons e es ih =>
      rw [run_cons, bind_eq_ok] at hrun
      obtain ⟨m, hstep, hrun⟩ := hrun
      obtain ⟨hP, hrest⟩ := eachStep_head heach hstep
      cases he : keep e with
      | false =>
          rw [List.filter_cons_of_neg (by simp [he])]
          obtain ⟨hm, hsame⟩ := hhide s e m hs he hP hstep
          exact ih hrun hrest hm ht (hsame.trans hview)
      | true =>
          have hsame := hshow s t e hs ht hview he
          rw [hstep] at hsame
          obtain ⟨n, hstep', hview'⟩ := map_eq_ok.mp hsame.symm
          rw [List.filter_cons_of_pos he, run_cons, hstep', bind_ok]
          exact ih hrun hrest (hkeep s e m hs he hstep)
            (hkeep t e n ht he hstep') hview'.symm

/-! ## What a run leaves on record -/

/-- The observations `obs` makes at the steps of a run, in order. -/
def record {ω : Type*} (step : σ → ε → Except φ σ) (obs : σ → ε → σ → List ω) :
    σ → List ε → List ω
  | _, [] => []
  | s, e :: es =>
      match step s e with
      | .error _ => []
      | .ok s' => obs s e s' ++ record step obs s' es

section Record

variable {ω : Type*} {obs : σ → ε → σ → List ω}

theorem record_concat {s m m' : σ} {es : List ε} {e : ε}
    (hrun : run step s es = .ok m) (hstep : step m e = .ok m') :
    record step obs s (es ++ [e]) = record step obs s es ++ obs m e m' := by
  induction es generalizing s with
  | nil =>
      cases hrun
      simp [record, hstep]
  | cons e' es ih =>
      rw [run_cons, bind_eq_ok] at hrun
      obtain ⟨t, ht, hrun⟩ := hrun
      simp only [List.cons_append, record, ht]
      rw [ih hrun, List.append_assoc]

/-- An invariant that relates the events so far, the record and the state holds
wherever a run ends. -/
theorem record_invariant {I : List ε → List ω → σ → Prop}
    (hkeep : ∀ es os s e s', I es os s → step s e = .ok s' →
      I (es ++ [e]) (os ++ obs s e s') s')
    {s s' : σ} {es : List ε} (hrun : run step s es = .ok s')
    (hstart : I [] [] s) : I es (record step obs s es) s' := by
  induction es using List.reverseRecOn generalizing s' with
  | nil =>
      cases hrun
      exact hstart
  | append_singleton es e ih =>
      obtain ⟨m, hm, hstep⟩ := run_concat_eq_ok.mp hrun
      rw [record_concat hm hstep]
      exact hkeep es _ m e s' (ih hm) hstep

end Record

end Coup.Support
