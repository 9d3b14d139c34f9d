import Mathlib

/-!
# Numbered occurrences

Each element of a list with its number among those that are equal to it.

* `mem_numbered`: the numbers of an element go from one to its count.
* `nodup_map_numbered`: when names that are made of elements and numbers are different.
-/

namespace Occurrences

variable {α : Type*} [DecidableEq α] [BEq α] [LawfulBEq α] {counts : α → Nat} {l : List α} {a : α} {n : Nat}

/-- The elements one after the other; the first argument counts those that have been before. -/
def numberedFrom (counts : α → Nat) : List α → List (α × Nat)
  | [] => []
  | a :: l => (a, counts a + 1) :: numberedFrom (Function.update counts a (counts a + 1)) l

def numbered (l : List α) : List (α × Nat) := numberedFrom (fun _ => 0) l

theorem update_add (counts : α → Nat) (a b : α) (l : List α) :
    Function.update counts a (counts a + 1) b + l.count b = counts b + (a :: l).count b := by
  by_cases hab : b = a
  · subst hab
    rw [Function.update_self, List.count_cons_self]
    omega
  · rw [Function.update_of_ne hab, List.count_cons_of_ne (Ne.symm hab)]

theorem numberedFrom_getElem? (counts : α → Nat) (l : List α) (k : Nat) :
    (numberedFrom counts l)[k]? = l[k]?.map fun a => (a, counts a + (l.take k).count a + 1) := by
  induction l generalizing counts k with
  | nil => rfl
  | cons b l ih =>
    cases k with
    | zero => rfl
    | succ k =>
      rw [numberedFrom, List.getElem?_cons_succ, List.getElem?_cons_succ, ih]
      simp only [update_add, List.take_succ_cons]

theorem mem_numberedFrom : (a, n) ∈ numberedFrom counts l ↔ counts a < n ∧ n ≤ counts a + l.count a := by
  induction l generalizing counts with
  | nil =>
    refine iff_of_false List.not_mem_nil fun h => ?_
    rw [List.count_nil] at h
    omega
  | cons b l ih =>
    rw [numberedFrom, List.mem_cons, ih, update_add, Prod.mk.injEq]
    by_cases hab : a = b
    · subst hab
      rw [Function.update_self, List.count_cons_self, eq_self_iff_true, true_and]
      omega
    · rw [Function.update_of_ne hab]
      simp [hab]

theorem nodup_numberedFrom (counts : α → Nat) (l : List α) : (numberedFrom counts l).Nodup := by
  induction l generalizing counts with
  | nil => exact List.nodup_nil
  | cons a l ih =>
    refine List.nodup_cons.mpr ⟨fun hmem => ?_, ih _⟩
    have hlt := (mem_numberedFrom.mp hmem).1
    rw [Function.update_self] at hlt
    exact Nat.lt_irrefl _ hlt

theorem mem_numbered : (a, n) ∈ numbered l ↔ 1 ≤ n ∧ n ≤ l.count a := by
  rw [numbered, mem_numberedFrom, Nat.zero_add]
  exact Iff.rfl

theorem nodup_map_numbered {β : Type*} (name : α × Nat → β) : ((numbered l).map name).Nodup ↔
    ∀ a m b n, 1 ≤ m → m ≤ l.count a → 1 ≤ n → n ≤ l.count b → name (a, m) = name (b, n) → a = b ∧ m = n := by
  rw [numbered, List.nodup_map_iff_inj_on (nodup_numberedFrom _ l)]
  constructor
  · intro hinj a m b n hm hma hn hnb hname
    exact Prod.mk.inj (hinj (a, m) (mem_numbered.mpr ⟨hm, hma⟩) (b, n) (mem_numbered.mpr ⟨hn, hnb⟩) hname)
  · rintro hinj ⟨a, m⟩ ham ⟨b, n⟩ hbn hname
    obtain ⟨hm, hma⟩ := mem_numbered.mp ham
    obtain ⟨hn, hnb⟩ := mem_numbered.mp hbn
    obtain ⟨rfl, rfl⟩ := hinj a m b n hm hma hn hnb hname
    rfl

end Occurrences
