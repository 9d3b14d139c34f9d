import Mathlib

/-!
# Tables as lists of rows

The statements of a data store on one table, with the table a list of rows: a set-based update (`updateMany`), the
number of rows it matches (`List.countP`) and a set-based delete (`deleteMany`). A key column of the table is a
function `k` of the row with `(l.map k).Nodup`; both statements keep it (`nodup_updateMany`, `nodup_deleteMany`), and
a key finds one row (`eq_of_key`, `eq_of_filterMap`, `find?_key`).
-/

namespace Rows

variable {α κ : Type*} {p : α → Bool} {f : α → α} {k : α → κ} {l : List α} {a b : α}

/-- `f` is applied to every row that matches `p`. -/
def updateMany (p : α → Bool) (f : α → α) (l : List α) : List α := l.map fun r => if p r then f r else r

/-- Every row that matches `p` goes. -/
def deleteMany (p : α → Bool) (l : List α) : List α := l.filter fun r => !p r

@[simp] theorem mem_deleteMany : a ∈ deleteMany p l ↔ a ∈ l ∧ p a = false := by
  simp [deleteMany]

theorem mem_updateMany : a ∈ updateMany p f l ↔ ∃ r ∈ l, a = if p r then f r else r := by
  simp only [updateMany, List.mem_map]
  constructor
  · rintro ⟨r, hr, rfl⟩
    exact ⟨r, hr, rfl⟩
  · rintro ⟨r, hr, rfl⟩
    exact ⟨r, hr, rfl⟩

/-- A row of the updated table: an untouched row, or the image of a matching one. -/
theorem of_mem_updateMany (h : a ∈ updateMany p f l) : (a ∈ l ∧ p a = false) ∨ ∃ r ∈ l, p r = true ∧ a = f r := by
  obtain ⟨r, hr, rfl⟩ := mem_updateMany.mp h
  cases hp : p r with
  | true => exact Or.inr ⟨r, hr, hp, by simp⟩
  | false => exact Or.inl ⟨by simpa using hr, by simpa using hp⟩

/-- A column that `f` does not write. -/
theorem map_updateMany (hk : ∀ r, p r = true → k (f r) = k r) : (updateMany p f l).map k = l.map k := by
  simp only [updateMany, List.map_map]
  refine List.map_congr_left fun r _ => ?_
  simp only [Function.comp]
  split
  · next hp => exact hk r hp
  · rfl

theorem nodup_updateMany (hk : ∀ r, p r = true → k (f r) = k r) (h : (l.map k).Nodup) :
    ((updateMany p f l).map k).Nodup := by
  rw [map_updateMany hk]
  exact h

theorem nodup_deleteMany (h : (l.map k).Nodup) : ((deleteMany p l).map k).Nodup :=
  h.sublist (List.filter_sublist.map k)

/-- A fresh key keeps the column a key. -/
theorem nodup_insert (h : (l.map k).Nodup) (ha : ∀ r ∈ l, k r ≠ k a) : ((l ++ [a]).map k).Nodup := by
  rw [List.map_append, List.nodup_append]
  refine ⟨h, by simp, ?_⟩
  simp only [List.mem_map, List.map_cons, List.map_nil, List.mem_singleton]
  rintro _ ⟨r, hr, rfl⟩ _ rfl
  exact ha r hr

/-- A key belongs to one row. -/
theorem eq_of_key (h : (l.map k).Nodup) (ha : a ∈ l) (hb : b ∈ l) (hk : k a = k b) : a = b :=
  List.inj_on_of_nodup_map h ha hb hk

/-- A condition that holds of one key only matches at most one row. -/
theorem countP_le_one (h : (l.map k).Nodup) (hp : ∀ a ∈ l, ∀ b ∈ l, p a = true → p b = true → k a = k b) :
    l.countP p ≤ 1 := by
  have hkeys : ((l.filter p).map k).Nodup := h.sublist (List.filter_sublist.map k)
  rw [List.countP_eq_length_filter]
  cases hf : l.filter p with
  | nil => simp
  | cons a tl =>
    cases tl with
    | nil => simp
    | cons b tl =>
      have ha : a ∈ l.filter p := by simp [hf]
      have hb : b ∈ l.filter p := by simp [hf]
      obtain ⟨hal, hpa⟩ := List.mem_filter.mp ha
      obtain ⟨hbl, hpb⟩ := List.mem_filter.mp hb
      rw [hf] at hkeys
      have hne : k a ∉ (b :: tl).map k := (List.nodup_cons.mp hkeys).1
      exact absurd (by simp [hp a hal b hbl hpa hpb]) hne

/-- A key that some rows have belongs to one of them. -/
theorem eq_of_filterMap {k : α → Option κ} {x : κ} (h : (l.filterMap k).Nodup) (ha : a ∈ l) (hb : b ∈ l)
    (hka : k a = some x) (hkb : k b = some x) : a = b := by
  induction l with
  | nil => cases ha
  | cons r l ih =>
    have hmem : ∀ {c}, c ∈ l → k c = some x → x ∈ l.filterMap k := fun hc hk => List.mem_filterMap.mpr ⟨_, hc, hk⟩
    have htail : (l.filterMap k).Nodup := h.sublist ((List.sublist_cons_self r l).filterMap k)
    rcases List.mem_cons.mp ha with har | hal
    · rcases List.mem_cons.mp hb with hbr | hbl
      · rw [har, hbr]
      · rw [List.filterMap_cons_some (har ▸ hka)] at h
        exact absurd (hmem hbl hkb) (List.nodup_cons.mp h).1
    · rcases List.mem_cons.mp hb with hbr | hbl
      · rw [List.filterMap_cons_some (hbr ▸ hkb)] at h
        exact absurd (hmem hal hka) (List.nodup_cons.mp h).1
      · exact ih htail hal hbl

/-- With a key column, a lookup by key finds exactly the row that carries the key. -/
theorem find?_key [BEq κ] [LawfulBEq κ] (h : (l.map k).Nodup) (x : κ) :
    l.find? (fun r => k r == x) = some a ↔ a ∈ l ∧ k a = x := by
  constructor
  · intro hf
    exact ⟨List.mem_of_find?_eq_some hf, by simpa using List.find?_some hf⟩
  · rintro ⟨ha, rfl⟩
    cases hf : l.find? (fun r => k r == k a) with
    | none =>
      have hna := List.find?_eq_none.mp hf a ha
      simp at hna
    | some r =>
      have hr : k r = k a := by simpa using List.find?_some hf
      rw [eq_of_key h (List.mem_of_find?_eq_some hf) ha hr]

end Rows
