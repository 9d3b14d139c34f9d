import Mathlib

/-!
# Sorting by a refined order

A list that is sorted by a comparison which refines the order of some value `f` (ties may be broken in any way) is
sorted by `f` (`pairwise_insertionSort_refines`), so its head has the least value.
-/

namespace Ranked

variable {α β : Type*} [Preorder β] {r : α → α → Prop} [DecidableRel r] {f : α → β} {l : List α} {a : α}

theorem pairwise_orderedInsert (hpos : ∀ a b, r a b → f a ≤ f b) (hneg : ∀ a b, ¬r a b → f b ≤ f a)
    (h : l.Pairwise fun a b => f a ≤ f b) : (l.orderedInsert r a).Pairwise fun a b => f a ≤ f b := by
  induction l with
  | nil => simp
  | cons b l ih =>
    obtain ⟨hb, hl⟩ := List.pairwise_cons.mp h
    rw [List.orderedInsert_cons]
    split
    · next hab =>
      refine List.pairwise_cons.mpr ⟨fun c hc => ?_, h⟩
      rcases List.mem_cons.mp hc with rfl | hc
      · exact hpos a _ hab
      · exact (hpos a b hab).trans (hb c hc)
    · next hab =>
      refine List.pairwise_cons.mpr ⟨fun c hc => ?_, ih hl⟩
      rcases (List.mem_orderedInsert r).mp hc with rfl | hc
      · exact hneg _ b hab
      · exact hb c hc

/-- The comparison decides the order of `f`, and something else only where `f` is equal. -/
theorem pairwise_insertionSort_refines (hpos : ∀ a b, r a b → f a ≤ f b) (hneg : ∀ a b, ¬r a b → f b ≤ f a)
    (l : List α) : (l.insertionSort r).Pairwise fun a b => f a ≤ f b := by
  induction l with
  | nil => simp
  | cons a l ih => exact pairwise_orderedInsert hpos hneg ih

/-- The head of the sorted list has the least value. -/
theorem head_le (hpos : ∀ a b, r a b → f a ≤ f b) (hneg : ∀ a b, ¬r a b → f b ≤ f a) {rest : List α}
    (h : l.insertionSort r = a :: rest) : ∀ b ∈ l, f a ≤ f b := by
  have hsorted := pairwise_insertionSort_refines hpos hneg l
  rw [h] at hsorted
  intro b hb
  have hmem : b ∈ a :: rest := h ▸ (List.mem_insertionSort r).mpr hb
  rcases List.mem_cons.mp hmem with rfl | hrest
  · exact le_rfl
  · exact (List.pairwise_cons.mp hsorted).1 b hrest

end Ranked
