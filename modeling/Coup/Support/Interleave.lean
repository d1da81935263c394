import Mathlib.Data.List.Basic

/-!
# Interleaved lists

A shared list to which several parties append, each remembering its own
entries.  Parties can join at any time.
-/

namespace Coup.Support

variable {α : Type*}

/-- `log` is built from the lists of `parts`, whose entries keep their
order. -/
inductive Interleaves : List (List α) → List α → Prop
  | nil : Interleaves [] []
  /-- A new party has not appended anything. -/
  | join {parts : List (List α)} {log : List α} :
      Interleaves parts log → Interleaves (parts ++ [[]]) log
  | append {pre post : List (List α)} {l log : List α} (xs : List α) :
      Interleaves (pre ++ l :: post) log →
        Interleaves (pre ++ (l ++ xs) :: post) (log ++ xs)

namespace Interleaves

variable {parts : List (List α)} {l log : List α}

/-- The entries of a party are in the log in their order. -/
theorem sublist (h : Interleaves parts log) :
    ∀ l ∈ parts, l.Sublist log := by
  induction h with
  | nil =>
      intro l hl
      exact absurd hl List.not_mem_nil
  | join _ ih =>
      intro l hl
      rw [List.mem_append, List.mem_singleton] at hl
      rcases hl with hl | rfl
      · exact ih l hl
      · exact List.nil_sublist _
  | @append pre post k log xs _ ih =>
      intro l hl
      rw [List.mem_append, List.mem_cons] at hl
      rcases hl with hl | rfl | hl
      · exact (ih l (List.mem_append_left _ hl)).trans
          (List.sublist_append_left log xs)
      · exact (ih k (List.mem_append_right _ List.mem_cons_self)).append_right
          xs
      · exact (ih l (List.mem_append_right _ (List.mem_cons_of_mem _ hl))).trans
          (List.sublist_append_left log xs)

/-- The log has no other entries. -/
theorem perm (h : Interleaves parts log) : log.Perm parts.flatten := by
  induction h with
  | nil => exact .nil
  | join _ ih => simpa only [List.flatten_concat, List.append_nil] using ih
  | @append pre post k log xs _ ih =>
      have hmoved : (pre.flatten ++ (k ++ post.flatten) ++ xs).Perm
          (pre.flatten ++ (k ++ xs ++ post.flatten)) := by
        rw [List.append_assoc, List.append_assoc, List.append_assoc]
        exact (List.perm_append_comm.append_left k).append_left pre.flatten
      rw [List.flatten_append, List.flatten_cons] at ih ⊢
      exact (ih.append_right xs).trans hmoved

/-- The log is that of the last party exactly if no other has appended
anything. -/
theorem eq_last_iff (h : Interleaves (parts ++ [l]) log) :
    log = l ↔ ∀ l' ∈ parts, l' = [] := by
  have hlength := h.perm.length_eq
  rw [List.flatten_concat, List.length_append] at hlength
  rw [← List.flatten_eq_nil_iff, ← List.length_eq_zero_iff]
  constructor
  · rintro rfl
    omega
  · intro hzero
    have hsub :=
      h.sublist l (List.mem_append_right _ (List.mem_singleton_self l))
    exact (hsub.eq_of_length (by omega)).symm

end Interleaves

end Coup.Support
