import Mathlib

/-!
# The first name that is not taken

Candidates are numbered from some number on, and the search stops at the first one that is not taken. Where the
candidates differ from each other, as many of them as there are names, and one more, are enough (`firstFree_isSome`).
-/

namespace Fresh

variable {α : Type*} [DecidableEq α] {candidate : Nat → α} {taken : List α} {a : α}

/-- The loop over the candidates; the first argument is what is left of them. -/
def firstFree (candidate : Nat → α) (taken : List α) : Nat → Nat → Option α
  | 0, _ => none
  | left + 1, counter =>
    if candidate counter ∈ taken then firstFree candidate taken left (counter + 1) else some (candidate counter)

theorem firstFree_not_mem : ∀ {left counter}, firstFree candidate taken left counter = some a → a ∉ taken
  | 0, _, h => by cases h
  | left + 1, counter, h => by
    unfold firstFree at h
    split at h
    · exact firstFree_not_mem h
    · next hfree =>
      cases h
      exact hfree

/-- What is found is the first candidate that is not taken. -/
theorem firstFree_eq_some : ∀ {left counter}, firstFree candidate taken left counter = some a →
    ∃ i, counter ≤ i ∧ a = candidate i ∧ ∀ j, counter ≤ j → j < i → candidate j ∈ taken
  | 0, _, h => by cases h
  | left + 1, counter, h => by
    unfold firstFree at h
    split at h
    · next hmem =>
      obtain ⟨i, hle, ha, hbefore⟩ := firstFree_eq_some h
      refine ⟨i, by omega, ha, fun j hj hji => ?_⟩
      by_cases heq : j = counter
      · exact heq ▸ hmem
      · exact hbefore j (by omega) hji
    · cases h
      exact ⟨counter, Nat.le_refl counter, rfl, fun j hj hji => by omega⟩

/-- Where the search fails, every candidate is taken. -/
theorem mem_of_firstFree_none : ∀ {left counter}, firstFree candidate taken left counter = none →
    ∀ i, i < left → candidate (counter + i) ∈ taken
  | 0, _, _, i, hi => by omega
  | left + 1, counter, h, i, hi => by
    unfold firstFree at h
    split at h
    · next hmem =>
      cases i with
      | zero => exact hmem
      | succ i =>
        have hrest := mem_of_firstFree_none h i (by omega)
        rwa [Nat.add_assoc, Nat.add_comm 1 i] at hrest
    · cases h

theorem firstFree_isSome {counter : Nat} (hinj : ∀ i j, counter ≤ i → counter ≤ j → candidate i = candidate j → i = j) :
    ∃ a, firstFree candidate taken (taken.length + 1) counter = some a := by
  cases h : firstFree candidate taken (taken.length + 1) counter with
  | some a => exact ⟨a, rfl⟩
  | none =>
    -- one candidate more than there are names
    have hnodup : ((List.range (taken.length + 1)).map fun i => candidate (counter + i)).Nodup := by
      refine List.Nodup.map_on (fun i _ j _ hij => ?_) List.nodup_range
      have hsame := hinj (counter + i) (counter + j) (by omega) (by omega) hij
      omega
    have hsub : ((List.range (taken.length + 1)).map fun i => candidate (counter + i)) ⊆ taken := by
      intro a ha
      obtain ⟨i, hi, rfl⟩ := List.mem_map.mp ha
      exact mem_of_firstFree_none h i (List.mem_range.mp hi)
    have hle := (hnodup.subperm hsub).length_le
    rw [List.length_map, List.length_range] at hle
    omega

/-! ## Candidates that are compared by a key -/

variable {β : Type*} {key : β → α} {name : Nat → β} {b : β}

/-- The loop over candidates of which the keys may be taken. -/
def firstFreeBy (key : β → α) (name : Nat → β) (taken : List α) : Nat → Nat → Option β
  | 0, _ => none
  | left + 1, counter =>
    if key (name counter) ∈ taken then firstFreeBy key name taken left (counter + 1) else some (name counter)

theorem firstFreeBy_map : ∀ {left counter},
    (firstFreeBy key name taken left counter).map key = firstFree (fun i => key (name i)) taken left counter
  | 0, _ => rfl
  | left + 1, counter => by
    rw [firstFreeBy, firstFree]
    split
    · exact firstFreeBy_map
    · rfl

theorem firstFreeBy_eq_some : ∀ {left counter}, firstFreeBy key name taken left counter = some b → ∃ i, b = name i
  | 0, _, h => by cases h
  | left + 1, counter, h => by
    unfold firstFreeBy at h
    split at h
    · exact firstFreeBy_eq_some h
    · cases h
      exact ⟨counter, rfl⟩

end Fresh
