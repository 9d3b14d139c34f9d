import Mathlib

/-!
# Texts around a separator

Where one of two parts does not have the separator, the whole text determines both.
-/

namespace Separators

variable {α : Type*} {x : α} {s t s' t' : List α}

/-- The first separator. -/
theorem append_inj_first (hs : x ∉ s) (hs' : x ∉ s') (h : s ++ x :: t = s' ++ x :: t') : s = s' ∧ t = t' := by
  induction s generalizing s' with
  | nil =>
    cases s' with
    | nil => exact ⟨rfl, (List.cons.inj h).2⟩
    | cons y s' =>
      obtain ⟨hy, -⟩ := List.cons.inj h
      exact absurd (hy ▸ List.mem_cons_self) hs'
  | cons y s ih =>
    cases s' with
    | nil =>
      obtain ⟨hy, -⟩ := List.cons.inj h
      exact absurd (hy ▸ List.mem_cons_self) hs
    | cons y' s' =>
      obtain ⟨hy, hrest⟩ := List.cons.inj h
      obtain ⟨hleft, hright⟩ :=
        ih (fun hmem => hs (List.mem_cons_of_mem _ hmem)) (fun hmem => hs' (List.mem_cons_of_mem _ hmem)) hrest
      exact ⟨by rw [hy, hleft], hright⟩

/-- The last separator. -/
theorem append_inj_last (ht : x ∉ t) (ht' : x ∉ t') (h : s ++ x :: t = s' ++ x :: t') : s = s' ∧ t = t' := by
  have hreverse : t.reverse ++ x :: s.reverse = t'.reverse ++ x :: s'.reverse := by
    have := congrArg List.reverse h
    simpa using this
  obtain ⟨hright, hleft⟩ := append_inj_first (by simpa using ht) (by simpa using ht') hreverse
  exact ⟨List.reverse_injective hleft, List.reverse_injective hright⟩

end Separators
