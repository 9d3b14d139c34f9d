import Mathlib

/-!
# Maps that remember the order of insertion

A map is the list of its entries in the order in which their keys were first set; setting a key again changes its
value in place.

* `get?_set`: what a lookup finds after one assignment.
* `get?_setAll`: after a list of assignments a lookup finds the last one to its key, and where there is none what was
  there before.
* `lookup_reverse`: in a list in which no key occurs twice, the last assignment to a key is the only one.
-/

/-- Entries in order of insertion; no key occurs twice. -/
structure OrderedMap (κ ν : Type*) where
  entries : List (κ × ν)
  nodup : (entries.map Prod.fst).Nodup

namespace OrderedMap

variable {κ ν : Type*} [DecidableEq κ] {k k' : κ} {v v' : ν}

/-- The entries after the value of `k` is set to `v`. -/
def setEntry (k : κ) (v : ν) : List (κ × ν) → List (κ × ν)
  | [] => [(k, v)]
  | e :: l => if e.1 = k then (k, v) :: l else e :: setEntry k v l

theorem fst_of_mem_setEntry {l : List (κ × ν)} {e : κ × ν} (h : e ∈ setEntry k v l) :
    e.1 = k ∨ e.1 ∈ l.map Prod.fst := by
  induction l with
  | nil => exact Or.inl (by rw [List.mem_singleton.mp h])
  | cons a l ih =>
    unfold setEntry at h
    split at h
    · rcases List.mem_cons.mp h with rfl | h
      · exact Or.inl rfl
      · exact Or.inr (List.mem_map_of_mem (List.mem_cons_of_mem _ h))
    · rcases List.mem_cons.mp h with rfl | h
      · exact Or.inr (List.mem_map_of_mem List.mem_cons_self)
      · rcases ih h with h | h
        · exact Or.inl h
        · exact Or.inr (by rw [List.map_cons]; exact List.mem_cons_of_mem _ h)

theorem nodup_setEntry {l : List (κ × ν)} (h : (l.map Prod.fst).Nodup) : ((setEntry k v l).map Prod.fst).Nodup := by
  induction l with
  | nil => simp [setEntry]
  | cons a l ih =>
    obtain ⟨hnot, hl⟩ := List.nodup_cons.mp h
    unfold setEntry
    split
    · next ha =>
      subst ha
      exact h
    · next ha =>
      refine List.nodup_cons.mpr ⟨fun hmem => ?_, ih hl⟩
      obtain ⟨e, he, hea⟩ := List.mem_map.mp hmem
      rcases fst_of_mem_setEntry he with hek | hel
      · exact ha (by rw [← hea, hek])
      · exact hnot (by rw [← hea]; exact hel)

theorem lookup_cons_if {e : κ × ν} {l : List (κ × ν)} :
    (e :: l).lookup k = if k = e.1 then some e.2 else l.lookup k := by
  rw [List.lookup_cons]
  by_cases h : k = e.1
  · simp [h]
  · simp [h, beq_eq_false_iff_ne.mpr h]

theorem lookup_setEntry (l : List (κ × ν)) :
    (setEntry k v l).lookup k' = if k' = k then some v else l.lookup k' := by
  induction l with
  | nil => simp only [setEntry, lookup_cons_if]
  | cons a l ih =>
    unfold setEntry
    by_cases ha : a.1 = k
    · rw [if_pos ha, lookup_cons_if, lookup_cons_if, ha]
      by_cases h : k' = k
      · rw [if_pos h, if_pos h]
      · rw [if_neg h, if_neg h, if_neg h]
    · rw [if_neg ha, lookup_cons_if, lookup_cons_if, ih]
      by_cases h : k' = a.1
      · rw [if_pos h, if_pos h, if_neg (h ▸ ha)]
      · rw [if_neg h, if_neg h]

/-- The map without entries. -/
def empty : OrderedMap κ ν := ⟨[], by simp⟩

/-- `map.set(k, v)`. -/
def set (m : OrderedMap κ ν) (k : κ) (v : ν) : OrderedMap κ ν := ⟨setEntry k v m.entries, nodup_setEntry m.nodup⟩

/-- The assignments of a list, one after the other. -/
def setAll (m : OrderedMap κ ν) (l : List (κ × ν)) : OrderedMap κ ν := l.foldl (fun m e => m.set e.1 e.2) m

/-- `map.get(k)`. -/
def get? (m : OrderedMap κ ν) (k : κ) : Option ν := m.entries.lookup k

/-- `[...map.values()]`. -/
def values (m : OrderedMap κ ν) : List ν := m.entries.map Prod.snd

variable {m : OrderedMap κ ν} {l : List (κ × ν)}

@[simp] theorem get?_empty : (empty : OrderedMap κ ν).get? k = none := rfl

theorem get?_set : (m.set k v).get? k' = if k' = k then some v else m.get? k' := lookup_setEntry m.entries

/-- The last assignment to a key decides. -/
theorem get?_setAll : (m.setAll l).get? k = (l.reverse.lookup k).or (m.get? k) := by
  induction l generalizing m with
  | nil => simp [setAll]
  | cons e l ih =>
    have hset : m.setAll (e :: l) = (m.set e.1 e.2).setAll l := rfl
    rw [hset, ih, get?_set, List.reverse_cons, List.lookup_append, lookup_cons_if, List.lookup_nil, Option.or_assoc]
    by_cases h : k = e.1
    · rw [if_pos h, if_pos h, Option.some_or]
    · rw [if_neg h, if_neg h, Option.none_or]

/-- After a list of assignments the keys are those of the list and those that were there. -/
theorem get?_setAll_isSome : ((m.setAll l).get? k).isSome = true ↔ (∃ v, (k, v) ∈ l) ∨ (m.get? k).isSome = true := by
  induction l generalizing m with
  | nil => simp [setAll]
  | cons e l ih =>
    have hset : m.setAll (e :: l) = (m.set e.1 e.2).setAll l := rfl
    rw [hset, ih, get?_set]
    by_cases hk : k = e.1
    · subst hk
      simp only [if_true, Option.isSome_some, or_true, true_iff]
      exact Or.inl ⟨e.2, List.mem_cons_self⟩
    · rw [if_neg hk]
      have hne : ∀ v, (k, v) ≠ e := fun v he => hk (by rw [← he])
      simp [hne]

/-- What a lookup finds was assigned, or was there. -/
theorem mem_of_get?_setAll (h : (m.setAll l).get? k = some v) : (k, v) ∈ l ∨ m.get? k = some v := by
  induction l generalizing m with
  | nil => exact Or.inr h
  | cons e l ih =>
    have hset : m.setAll (e :: l) = (m.set e.1 e.2).setAll l := rfl
    rw [hset] at h
    rcases ih h with hl | hm
    · exact Or.inl (List.mem_cons_of_mem _ hl)
    · rw [get?_set] at hm
      split at hm
      · next hk =>
        cases hm
        exact Or.inl (by rw [hk]; exact List.mem_cons_self)
      · exact Or.inr hm

/-- Where no key occurs twice, a lookup finds the entries. -/
theorem lookup_eq_some (h : (l.map Prod.fst).Nodup) : l.lookup k = some v ↔ (k, v) ∈ l := by
  induction l with
  | nil => simp
  | cons e l ih =>
    obtain ⟨hnot, hl⟩ := List.nodup_cons.mp h
    rw [lookup_cons_if, List.mem_cons]
    by_cases hk : k = e.1
    · have hno : (k, v) ∉ l := fun hmem => hnot (List.mem_map.mpr ⟨(k, v), hmem, hk⟩)
      subst hk
      simp only [if_true, hno, or_false, Option.some.injEq, Prod.ext_iff, true_and]
      exact eq_comm
    · have hne : (k, v) ≠ e := fun he => hk (by rw [← he])
      rw [if_neg hk, ih hl]
      simp [hne]

/-- Where no key occurs twice, the order of the assignments does not matter. -/
theorem lookup_reverse (h : (l.map Prod.fst).Nodup) : l.reverse.lookup k = some v ↔ (k, v) ∈ l := by
  rw [lookup_eq_some (by rw [List.map_reverse]; exact List.nodup_reverse.mpr h), List.mem_reverse]

/-- After assignments to different keys a lookup finds the assignments. -/
theorem get?_setAll_eq_some (h : (l.map Prod.fst).Nodup) : (empty.setAll l).get? k = some v ↔ (k, v) ∈ l := by
  rw [get?_setAll, get?_empty, Option.or_none, lookup_reverse h]

theorem get?_eq_some : m.get? k = some v ↔ (k, v) ∈ m.entries := lookup_eq_some m.nodup

/-- The map with `g` of each value. -/
theorem get?_setAll_map {ω : Type*} {g : ν → ω} :
    ((empty : OrderedMap κ ω).setAll (m.entries.map fun e => (e.1, g e.2))).get? k = (m.get? k).map g := by
  refine Option.ext fun w => ?_
  rw [get?_setAll, get?_empty, Option.or_none, lookup_reverse]
  · simp only [List.mem_map, Prod.mk.injEq, Option.map_eq_some_iff, get?_eq_some]
    constructor
    · rintro ⟨⟨k, v⟩, hmem, rfl, rfl⟩
      exact ⟨v, hmem, rfl⟩
    · rintro ⟨v, hmem, rfl⟩
      exact ⟨(k, v), hmem, rfl, rfl⟩
  · rw [List.map_map]
    exact m.nodup

/-- One value for each key of a list. -/
theorem get?_setAll_const {keys : List κ} :
    (m.setAll (keys.map fun k => (k, v))).get? k = if k ∈ keys then some v else m.get? k := by
  induction keys generalizing m with
  | nil => simp [setAll]
  | cons a keys ih =>
    have hset : m.setAll ((a :: keys).map fun k => (k, v)) = (m.set a v).setAll (keys.map fun k => (k, v)) := rfl
    rw [hset, ih, get?_set]
    by_cases hk : k ∈ keys
    · rw [if_pos hk, if_pos (List.mem_cons_of_mem _ hk)]
    · by_cases ha : k = a
      · rw [if_neg hk, if_pos ha, if_pos (ha ▸ List.mem_cons_self)]
      · rw [if_neg hk, if_neg ha, if_neg (by simp [ha, hk])]

theorem mem_values : v ∈ m.values ↔ ∃ k, m.get? k = some v := by
  simp only [values, List.mem_map, get?_eq_some]
  constructor
  · rintro ⟨⟨k, v⟩, h, rfl⟩
    exact ⟨k, h⟩
  · rintro ⟨k, h⟩
    exact ⟨(k, v), h, rfl⟩

end OrderedMap
