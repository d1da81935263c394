import Coup.Support.Run

/-!
# Progress

A computation that reads a list of draws can stop because the list is too
short.  It completes if every list can be continued so that it returns.  For
runs, a measure that can always be brought down leads to a goal.
-/

namespace Coup.Support

universe u v

variable {σ : Type u} {ε φ ι : Type*} {α β : Type v}

/-! ## The only fault -/

/-- The computation stops with no other fault. -/
def Faults (f : φ) (c : Except φ α) : Prop := ∀ f', c = .error f' → f' = f

section Faults

variable {f : φ} {c : Except φ α}

theorem faults_ok (a : α) : Faults f (.ok a) := by
  intro f' h
  cases h

theorem faults_error : Faults f (.error f : Except φ α) := by
  intro f' h
  cases h
  rfl

theorem faults_orFault (o : Option α) : Faults f (orFault f o) := by
  cases o with
  | none => exact faults_error
  | some a => exact faults_ok a

theorem Faults.bind {k : α → Except φ β} (hc : Faults f c)
    (hk : ∀ a, c = .ok a → Faults f (k a)) : Faults f (c >>= k) := by
  cases hc' : c with
  | error f' =>
      obtain rfl := hc f' hc'
      exact faults_error
  | ok a => exact hk a hc'

theorem Faults.ite {d : Except φ α} {p : Prop} [Decidable p]
    (hc : p → Faults f c) (hd : ¬ p → Faults f d) :
    Faults f (if p then c else d) := by
  split
  next h => exact hc h
  next h => exact hd h

/-- A computation that avoids its only fault returns. -/
theorem Avoids.succeeds (h : Avoids f c) (honly : Faults f c) :
    ∃ a, c = .ok a := by
  cases hc : c with
  | error f' =>
      obtain rfl := honly f' hc
      exact absurd hc h
  | ok a => exact ⟨a, rfl⟩

end Faults

/-! ## Computations that can be completed -/

/-- Whatever was drawn, the computation can go on so that it returns. -/
def Completes (f : List ι → Except φ α) : Prop :=
  ∀ draws, ∃ more a, f (draws ++ more) = .ok a

section Completes

variable {f g : List ι → Except φ α}

theorem completes_of_succeeds (h : ∀ draws, ∃ a, f draws = .ok a) :
    Completes f := by
  intro draws
  exact ⟨[], h (draws ++ [])⟩

/-- The draws are read by the first part. -/
theorem Completes.bind {k : α → Except φ β} (hf : Completes f)
    (hk : ∀ draws a, f draws = .ok a → ∃ b, k a = .ok b) :
    Completes fun draws => f draws >>= k := by
  intro draws
  obtain ⟨more, a, ha⟩ := hf draws
  obtain ⟨b, hb⟩ := hk _ a ha
  exact ⟨more, b, bind_eq_ok.mpr ⟨a, ha, hb⟩⟩

/-- The draws are read by the second part. -/
theorem completes_bind {c : Except φ α} {k : α → List ι → Except φ β}
    (hc : ∃ a, c = .ok a) (hk : ∀ a, c = .ok a → Completes (k a)) :
    Completes fun draws => c >>= fun a => k a draws := by
  obtain ⟨a, ha⟩ := hc
  intro draws
  obtain ⟨more, b, hb⟩ := hk a ha draws
  exact ⟨more, b, bind_eq_ok.mpr ⟨a, ha, hb⟩⟩

theorem Completes.ite {p : Prop} [Decidable p] (hf : p → Completes f)
    (hg : ¬ p → Completes g) :
    Completes fun draws => if p then f draws else g draws := by
  by_cases h : p
  · simpa only [if_pos h] using hf h
  · simpa only [if_neg h] using hg h

end Completes

/-! ## Runs towards a goal -/

/-- A run over events of one kind leads from one state to the other. -/
def Leads (step : σ → ε → Except φ σ) (P : ε → Prop) (s s' : σ) : Prop :=
  ∃ es, (∀ e ∈ es, P e) ∧ run step s es = .ok s'

section Leads

variable {step : σ → ε → Except φ σ} {P : ε → Prop} {s s' s'' : σ} {e : ε}

theorem Leads.refl (s : σ) : Leads step P s s := ⟨[], by simp, rfl⟩

theorem Leads.trans (h : Leads step P s s') (h' : Leads step P s' s'') :
    Leads step P s s'' := by
  obtain ⟨es, hes, hrun⟩ := h
  obtain ⟨es', hes', hrun'⟩ := h'
  refine ⟨es ++ es', ?_, run_append_eq_ok.mpr ⟨s', hrun, hrun'⟩⟩
  intro e he
  rcases List.mem_append.mp he with he | he
  · exact hes e he
  · exact hes' e he

theorem leads_single (he : P e) (hstep : step s e = .ok s') :
    Leads step P s s' := by
  refine ⟨[e], by simpa using he, ?_⟩
  rw [run_cons, hstep, bind_ok, run_nil]

/-- If runs always bring the measure down or come to the goal, then some run
comes to the goal. -/
theorem leads_of_measure {I Goal : σ → Prop} (measure : σ → ℕ)
    (h : ∀ s, I s → ∃ s', Leads step P s s' ∧
      (Goal s' ∨ I s' ∧ measure s' < measure s))
    (hs : I s) : ∃ s', Leads step P s s' ∧ Goal s' := by
  induction hn : measure s using Nat.strongRecOn generalizing s with
  | _ n ih =>
      obtain ⟨m, hm, hgoal | ⟨hI, hlt⟩⟩ := h s hs
      · exact ⟨m, hm, hgoal⟩
      · obtain ⟨s', hs', hgoal⟩ := ih (measure m) (hn ▸ hlt) hI rfl
        exact ⟨s', hm.trans hs', hgoal⟩

end Leads

end Coup.Support
