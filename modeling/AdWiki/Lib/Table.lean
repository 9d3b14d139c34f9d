import AdWiki.Lib.OrderedMap
import AdWiki.Lib.Rows

/-!
# Tables with a unique index

A table is a list of rows together with the proof that no two rows have the same key, so that a lookup by key
(`find_eq_some`) is about one row and every statement has to keep the index. A query for many rows returns them in an
order of the data store's choice (`RowOrder`, `findMany`); a map that is built from such rows does not depend on it
(`get?_index`).
-/

/-- Rows with a unique index on `key`. -/
structure Table {α κ : Type*} (key : α → κ) where
  rows : List α
  unique : (rows.map key).Nodup

namespace Table

variable {α κ : Type*} {key : α → κ} {t : Table key} {a : α} {x : κ} {p : α → Bool}

instance : Membership α (Table key) := ⟨fun t a => a ∈ t.rows⟩

theorem mem_def : a ∈ t ↔ a ∈ t.rows := Iff.rfl

def empty : Table key := ⟨[], List.nodup_nil⟩

@[simp] theorem rows_empty : (empty : Table key).rows = [] := rfl

/-- A table of one row. -/
def single (a : α) : Table key := ⟨[a], List.nodup_singleton _⟩

@[simp] theorem rows_single : (single a : Table key).rows = [a] := rfl

/-- `deleteMany`. -/
def deleteMany (t : Table key) (p : α → Bool) : Table key := ⟨Rows.deleteMany p t.rows, Rows.nodup_deleteMany t.unique⟩

/-- An update of the rows that match `p`, by an assignment that leaves the key alone. -/
def updateMany (t : Table key) (p : α → Bool) (f : α → α) (hf : ∀ r, key (f r) = key r) : Table key :=
  ⟨Rows.updateMany p f t.rows, Rows.nodup_updateMany (fun r _ => hf r) t.unique⟩

@[simp] theorem mem_deleteMany : a ∈ t.deleteMany p ↔ a ∈ t ∧ p a = false := Rows.mem_deleteMany

theorem mem_updateMany {f : α → α} {hf : ∀ r, key (f r) = key r} :
    a ∈ t.updateMany p f hf ↔ ∃ r ∈ t, a = if p r then f r else r := Rows.mem_updateMany

variable [DecidableEq κ]

/-- The table with `a` in the place of the row that has its key. -/
def put (t : Table key) (a : α) : Table key :=
  t.updateMany (fun r => decide (key r = key a)) (fun r => if key r = key a then a else r) (by
    intro r
    split
    · next h => exact h.symm
    · rfl)

theorem mem_put {b : α} : b ∈ t.put a ↔ (∃ r ∈ t, key r = key a ∧ b = a) ∨ b ∈ t ∧ key b ≠ key a := by
  rw [put, mem_updateMany]
  constructor
  · rintro ⟨r, hr, rfl⟩
    by_cases hkey : key r = key a
    · exact Or.inl ⟨r, hr, hkey, by simp [hkey]⟩
    · exact Or.inr (by simpa [hkey] using hr)
  · rintro (⟨r, hr, hkey, rfl⟩ | ⟨hb, hkey⟩)
    · exact ⟨r, hr, by simp [hkey]⟩
    · exact ⟨b, hb, by simp [hkey]⟩

/-- `findUnique`. -/
def find (t : Table key) (x : κ) : Option α := t.rows.find? fun r => decide (key r = x)

/-- `createMany`, which the unique index refuses where a key would occur twice. -/
def createMany (t : Table key) (l : List α) : Option (Table key) :=
  if h : ((t.rows ++ l).map key).Nodup then some ⟨t.rows ++ l, h⟩ else none

theorem find_eq_some : t.find x = some a ↔ a ∈ t ∧ key a = x := Rows.find?_key t.unique x

theorem find_eq_none : t.find x = none ↔ ∀ a ∈ t, key a ≠ x := by
  simp [find, mem_def]

theorem find_of_mem (h : a ∈ t) : t.find (key a) = some a := find_eq_some.mpr ⟨h, rfl⟩

/-- A lookup finds the row `a` under its own key only. -/
theorem any_find (h : a ∈ t) : ((t.find x).any fun r => decide (key r = key a)) = decide (x = key a) := by
  by_cases hx : x = key a
  · simp [hx, find_of_mem h]
  · rw [decide_eq_false hx, Bool.eq_false_iff]
    intro hany
    obtain ⟨r, hfind, hkey⟩ := (Option.any_eq_true _ _).mp hany
    exact hx ((find_eq_some.mp hfind).2.symm.trans (of_decide_eq_true hkey))

theorem mem_createMany {l : List α} {t' : Table key} (h : t.createMany l = some t') : a ∈ t' ↔ a ∈ t ∨ a ∈ l := by
  unfold createMany at h
  split at h
  · cases h
    exact List.mem_append
  · cases h

theorem key_ne_of_createMany {l : List α} {t' : Table key} {b : α} (h : t.createMany l = some t') (ha : a ∈ t)
    (hb : b ∈ l) :
    key a ≠ key b := by
  unfold createMany at h
  split at h
  · next hnodup =>
    rw [List.map_append, List.nodup_append] at hnodup
    exact hnodup.2.2 _ (List.mem_map_of_mem ha) _ (List.mem_map_of_mem hb)
  · cases h

/-- New rows with keys of their own, none of which the table has, are accepted. -/
theorem createMany_isSome {l : List α} (hl : (l.map key).Nodup) (hnew : ∀ a ∈ t, ∀ b ∈ l, key a ≠ key b) :
    ∃ t', t.createMany l = some t' := by
  have hnodup : ((t.rows ++ l).map key).Nodup := by
    rw [List.map_append, List.nodup_append]
    refine ⟨t.unique, hl, ?_⟩
    intro x hx y hy
    obtain ⟨a, ha, rfl⟩ := List.mem_map.mp hx
    obtain ⟨b, hb, rfl⟩ := List.mem_map.mp hy
    exact hnew a ha b hb
  exact ⟨⟨t.rows ++ l, hnodup⟩, dif_pos hnodup⟩

/-- `createMany` with `skipDuplicates`: a row whose key is taken is left out. -/
def createManySkipDuplicates (t : Table key) (l : List α) : Table key := l.foldl (fun t a => (t.createMany [a]).getD t) t

/-- For rows that consist of their key. -/
theorem mem_createManySkipDuplicates (hkey : Function.Injective key) {l : List α} :
    a ∈ t.createManySkipDuplicates l ↔ a ∈ t ∨ a ∈ l := by
  induction l generalizing t with
  | nil => simp [createManySkipDuplicates]
  | cons b l ih =>
    have hfirst : a ∈ (t.createMany [b]).getD t ↔ a ∈ t ∨ a = b := by
      cases hcreate : t.createMany [b] with
      | some t' => rw [Option.getD_some, mem_createMany hcreate, List.mem_singleton]
      | none =>
        rw [Option.getD_none, iff_self_or]
        rintro rfl
        by_contra hnew
        have hfree : ∀ r ∈ t, ∀ b ∈ [a], key r ≠ key b := by
          intro r hr b hb heq
          obtain rfl := List.mem_singleton.mp hb
          exact hnew (hkey heq ▸ hr)
        obtain ⟨t', ht'⟩ := createMany_isSome (by simp) hfree
        exact nomatch hcreate.symm.trans ht'
    rw [createManySkipDuplicates, List.foldl_cons]
    exact ih.trans (by rw [hfirst, List.mem_cons, or_assoc])

/-- A lookup after a delete: the row, unless it matches. -/
theorem find_deleteMany : (t.deleteMany p).find x = (t.find x).filter fun r => !p r := by
  cases h : t.find x with
  | none => exact find_eq_none.mpr fun a ha => find_eq_none.mp h a (mem_deleteMany.mp ha).1
  | some r =>
    obtain ⟨hr, rfl⟩ := find_eq_some.mp h
    cases hp : p r with
    | true =>
      simp only [Option.filter_some, hp, Bool.not_true, Bool.false_eq_true, if_false]
      refine find_eq_none.mpr fun a ha hkey => ?_
      obtain ⟨ha, hpa⟩ := mem_deleteMany.mp ha
      rw [Rows.eq_of_key t.unique ha hr hkey, hp] at hpa
      cases hpa
    | false =>
      simp only [Option.filter_some, hp, Bool.not_false, if_true]
      exact find_eq_some.mpr ⟨mem_deleteMany.mpr ⟨hr, hp⟩, rfl⟩

/-- A lookup after an insert: the old row, or the new one. -/
theorem find_createMany {l : List α} {t' : Table key} (h : t.createMany l = some t') :
    t'.find x = (t.find x).or (l.find? fun r => decide (key r = x)) := by
  unfold createMany at h
  split at h
  · cases h
    exact List.find?_append
  · cases h

/-- A lookup after an update: the row, with the assignment where it matches. -/
theorem find_updateMany {f : α → α} {hf : ∀ r, key (f r) = key r} :
    (t.updateMany p f hf).find x = (t.find x).map fun r => if p r then f r else r := by
  have hkey : ∀ r, key (if p r then f r else r) = key r := by
    intro r
    split
    · exact hf r
    · rfl
  cases h : t.find x with
  | none =>
    refine find_eq_none.mpr fun a ha => ?_
    obtain ⟨r, hr, rfl⟩ := mem_updateMany.mp ha
    rw [hkey]
    exact find_eq_none.mp h r hr
  | some r =>
    obtain ⟨hr, rfl⟩ := find_eq_some.mp h
    exact find_eq_some.mpr ⟨mem_updateMany.mpr ⟨r, hr, rfl⟩, hkey r⟩

theorem isSome_find_updateMany {f : α → α} (hf : ∀ r, key (f r) = key r) :
    ((t.updateMany p f hf).find x).isSome = (t.find x).isSome := by
  rw [find_updateMany, Option.isSome_map]

end Table

/-! ## Further unique indexes -/

namespace Table

variable {α κ ι : Type*} {key : α → κ} {t t' : Table key} {a b : α} {p : α → Bool}

/-- A unique index on a column other than the key; rows without a value there do not collide. -/
def UniqueOn (t : Table key) (column : α → Option ι) : Prop :=
  ∀ a ∈ t, ∀ b ∈ t, ∀ x, column a = some x → column b = some x → key a = key b

variable {column : α → Option ι}

/-- Rows with the same value are one row. -/
theorem UniqueOn.eq (h : t.UniqueOn column) {x : ι} (ha : a ∈ t) (hb : b ∈ t) (hax : column a = some x)
    (hbx : column b = some x) : a = b :=
  Rows.eq_of_key t.unique ha hb (h a ha b hb x hax hbx)

/-- An assignment that leaves the column alone. -/
theorem UniqueOn.updateMany {f : α → α} {hf : ∀ r, key (f r) = key r} (h : t.UniqueOn column)
    (hcolumn : ∀ r, column (f r) = column r) : (t.updateMany p f hf).UniqueOn column := by
  intro a ha b hb x hax hbx
  obtain ⟨r, hr, rfl⟩ := mem_updateMany.mp ha
  obtain ⟨s, hs, rfl⟩ := mem_updateMany.mp hb
  have hsameKey : ∀ r, key (if p r then f r else r) = key r := by
    intro r
    split
    · exact hf r
    · rfl
  have hsameColumn : ∀ r, column (if p r then f r else r) = column r := by
    intro r
    split
    · exact hcolumn r
    · rfl
  rw [hsameColumn] at hax hbx
  rw [hsameKey, hsameKey]
  exact h r hr s hs x hax hbx

/-- A new row with a value that no row has. -/
theorem UniqueOn.createMany [DecidableEq κ] (h : t.UniqueOn column)
    (hnew : ∀ r ∈ t, ∀ x, column a = some x → column r ≠ some x)
    (hcreate : t.createMany [a] = some t') : t'.UniqueOn column := by
  intro r hr s hs x hrx hsx
  rw [mem_createMany hcreate, List.mem_singleton] at hr hs
  rcases hr with hr | rfl
  · rcases hs with hs | rfl
    · exact h r hr s hs x hrx hsx
    · exact absurd hrx (hnew r hr x hsx)
  · rcases hs with hs | rfl
    · exact absurd hsx (hnew s hs x hrx)
    · rfl

end Table

/-! ## Queries for many rows -/

/-- The order in which a query returns its rows. -/
structure RowOrder where
  apply : ∀ {β : Type}, List β → List β
  perm : ∀ {β : Type} (l : List β), (apply l).Perm l

/-- The order in which the rows are stored. -/
def RowOrder.stored : RowOrder := ⟨id, fun _ => .refl _⟩

namespace Table

variable {α κ : Type} {key : α → κ} {t : Table key} {a : α} {x : κ} {p : α → Bool} {order : RowOrder}

/-- `findMany`. -/
def findMany (order : RowOrder) (t : Table key) (p : α → Bool) : List α := order.apply (t.rows.filter p)

@[simp] theorem mem_findMany : a ∈ findMany order t p ↔ a ∈ t ∧ p a = true := by
  rw [findMany, (order.perm _).mem_iff, List.mem_filter]
  rfl

theorem nodup_findMany : ((findMany order t p).map key).Nodup :=
  ((order.perm _).map key).nodup_iff.mpr (t.unique.sublist (List.filter_sublist.map key))

variable [DecidableEq κ]

/-- `new Map(rows.map((row) => [row.id, row]))`. -/
def index {α κ : Type} [DecidableEq κ] (key : α → κ) (rows : List α) : OrderedMap κ α :=
  OrderedMap.empty.setAll (rows.map fun row => (key row, row))

/-- Where no two rows have the same value, the map finds the rows. -/
theorem get?_index_eq_some {rows : List α} {k : α → κ} (h : (rows.map k).Nodup) :
    (index k rows).get? x = some a ↔ a ∈ rows ∧ k a = x := by
  rw [index, OrderedMap.get?_setAll, OrderedMap.get?_empty, Option.or_none, OrderedMap.lookup_reverse]
  · simp only [List.mem_map, Prod.mk.injEq]
    constructor
    · rintro ⟨b, hb, rfl, rfl⟩
      exact ⟨hb, rfl⟩
    · rintro ⟨ha, rfl⟩
      exact ⟨a, ha, rfl, rfl⟩
  · rw [List.map_map]
    exact h

/-- The map finds the rows of the query. -/
theorem get?_index : (index key (findMany order t p)).get? x = (t.find x).filter p := by
  refine Option.ext fun a => ?_
  rw [get?_index_eq_some nodup_findMany, mem_findMany, Option.filter_eq_some_iff, find_eq_some]
  exact and_right_comm

end Table
