import Mathlib

/-!
# Pages after a position

A sorted list is read in pages. A page begins after a position, the key of the last element that was read before, and
names the position for the next page, as long as an element is left. Elements whose keys differ are read once each,
however they tie in parts of their keys.

* `Walk`: the calls with one position after the other, until none is named; `Walk.unique` says that the calls decide what
  is read.
* `walk_of_pages`: calls that answer with the elements after their position read the whole list.
* `Partition`: calls that answer read every element once, in the order; calls that cannot be answered fail at once.
* `partition_of_pages`: pages of a sorted list are a partition.
* `behind_last`: the elements behind the last one that was read.
-/

namespace Keyset

/-- Calls from a position on, until one names no further position, and what they return. -/
inductive Walk {ε π β : Type*} (call : Option π → Except ε (List β × Option π)) : Option π → List β → Prop
  | last {position rows} : call position = .ok (rows, none) → Walk call position rows
  | more {position rows next rest} : call position = .ok (rows, some next) → Walk call (some next) rest →
    Walk call position (rows ++ rest)

section Walk

variable {ε π α β : Type*} {call : Option π → Except ε (List β × Option π)} {position : Option π} {rows rows' : List β}

theorem Walk.unique (h : Walk call position rows) (h' : Walk call position rows') : rows = rows' := by
  induction h generalizing rows' with
  | last hcall =>
    cases h' with
    | last hcall' =>
      rw [hcall] at hcall'
      cases hcall'
      rfl
    | more hcall' _ =>
      rw [hcall] at hcall'
      cases hcall'
  | more hcall _ ih =>
    cases h' with
    | last hcall' =>
      rw [hcall] at hcall'
      cases hcall'
    | more hcall' hrest =>
      rw [hcall] at hcall'
      cases hcall'
      rw [ih hrest]

/-- The first elements, and the position of the last of them if more are left. -/
def page (limit : Nat) (position : α → π) (rest : List α) : List α × Option π :=
  (rest.take limit, if limit < rest.length then (rest.take limit).getLast?.map position else none)

/-- One element more than a page shows whether more are left. -/
theorem lt_length_probe {limit : Nat} {rest : List α} : limit < (rest.take (limit + 1)).length ↔ limit < rest.length := by
  rw [List.length_take]
  omega

/-- The page without the element that shows whether more are left. -/
theorem probe_eq {limit : Nat} {rest : List α} :
    (if limit < (rest.take (limit + 1)).length then (rest.take (limit + 1)).take limit else rest.take (limit + 1)) =
      rest.take limit := by
  rw [List.take_take, min_eq_left (Nat.le_succ limit)]
  split
  · rfl
  · next h =>
    have hshort := not_lt.mp (mt lt_length_probe.mpr h)
    rw [List.take_of_length_le (hshort.trans (Nat.le_succ limit)), List.take_of_length_le hshort]

/-- What is left of a list is read to its end. -/
theorem walk_of_rest {limit : Nat} {encode : α → π} {result : α → β} {all : List α} (hlimit : 0 < limit)
    (hcall : ∀ before rest, all = before ++ rest → call (before.getLast?.map encode) =
      .ok ((page limit encode rest).1.map result, (page limit encode rest).2))
    (before rest : List α) (hsplit : all = before ++ rest) :
    Walk call (before.getLast?.map encode) (rest.map result) := by
  induction hlength : rest.length using Nat.strongRecOn generalizing before rest with
  | ind n ih =>
    have hanswer := hcall before rest hsplit
    by_cases hmore : limit < rest.length
    · obtain ⟨a, ha⟩ : ∃ a, (rest.take limit).getLast? = some a := by
        rw [← Option.isSome_iff_exists, List.getLast?_isSome]
        intro hnil
        have hzero := congrArg List.length hnil
        rw [List.length_take_of_le hmore.le, List.length_nil] at hzero
        omega
      have hlast : (before ++ rest.take limit).getLast? = some a := by rw [List.getLast?_append, ha, Option.some_or]
      have hnext :=
        ih (rest.drop limit).length (by rw [List.length_drop]; omega) (before ++ rest.take limit) (rest.drop limit)
        (by rw [List.append_assoc, List.take_append_drop, hsplit]) rfl
      rw [hlast] at hnext
      rw [page, if_pos hmore, ha] at hanswer
      have hread := Walk.more hanswer hnext
      rwa [← List.map_append, List.take_append_drop] at hread
    · rw [page, if_neg hmore, List.take_of_length_le (not_lt.mp hmore)] at hanswer
      exact .last hanswer

/-- **Calls that answer with what comes after their position read the whole list.** -/
theorem walk_of_pages {limit : Nat} {encode : α → π} {result : α → β} {all : List α} (hlimit : 0 < limit)
    (hcall : ∀ before rest, all = before ++ rest → call (before.getLast?.map encode) =
      .ok ((page limit encode rest).1.map result, (page limit encode rest).2)) : Walk call none (all.map result) :=
  walk_of_rest hlimit hcall [] all rfl

end Walk

/-- Calls from the beginning on return every visible element once, in the order, if they are `answered`; if not, the first
one fails. -/
structure Partition {ε π α β : Type*} (answered : Prop) (visible : α → Prop) (before : α → α → Prop) (result : α → β)
    (call : Option π → Except ε (List β × Option π)) : Prop where
  walk : answered → ∃ rows : List α, (∀ read, Walk call none read ↔ read = rows.map result) ∧
    rows.Nodup ∧ rows.Pairwise before ∧ ∀ a, a ∈ rows ↔ visible a
  refused : ¬answered → ∃ e, call none = .error e

/-- Calls whose first one fails are not answered. -/
theorem Partition.of_error {ε π α β : Type*} {answered : Prop} {visible : α → Prop} {before : α → α → Prop}
    {result : α → β}
    {call : Option π → Except ε (List β × Option π)} {e : ε} (hno : ¬answered) (h : call none = .error e) :
    Partition answered visible before result call :=
  ⟨fun hyes => absurd hyes hno, fun _ => ⟨e, h⟩⟩

section After

variable {α κ : Type*} [LinearOrder κ] {key : α → κ} {rows sorted before rest : List α}

/-- The elements in the order of their keys. -/
structure IsSorted (key : α → κ) (rows sorted : List α) : Prop where
  perm : sorted.Perm rows
  order : sorted.Pairwise fun a b => key a < key b

/-- A sorting of elements whose keys differ. -/
theorem isSorted_insertionSort {r : α → α → Prop} [DecidableRel r] (hr : ∀ a b, r a b ↔ key a ≤ key b)
    (hnodup : (rows.map key).Nodup) : IsSorted key rows (rows.insertionSort r) where
  perm := List.perm_insertionSort r rows
  order := by
    have hrefl : ∀ a b, r a b ∨ r b a := fun a b => by
      rw [hr, hr]
      exact le_total _ _
    have hsorted : (rows.insertionSort r).Pairwise r := by
      have _ : Std.Total r := ⟨hrefl⟩
      have _ : IsTrans α r := ⟨fun a b c hab hbc => (hr a c).mpr (((hr a b).mp hab).trans ((hr b c).mp hbc))⟩
      exact List.pairwise_insertionSort r rows
    have hdiffer : (rows.insertionSort r).Pairwise fun a b => key a ≠ key b := by
      rw [← List.pairwise_map, ← List.Nodup, ((List.perm_insertionSort r rows).map key).nodup_iff]
      exact hnodup
    exact (hsorted.and hdiffer).imp fun {a b} h => lt_of_le_of_ne ((hr a b).mp h.1) h.2

theorem IsSorted.unique {sorted' : List α} (h : IsSorted key rows sorted) (h' : IsSorted key rows sorted') :
    sorted = sorted' := by
  refine List.Perm.eq_of_pairwise (fun a b _ _ hab hba => ?_) h.order h'.order (h.perm.trans h'.perm.symm)
  exact absurd (hab.trans hba) (lt_irrefl _)

theorem IsSorted.of_perm {rows' : List α} (h : IsSorted key rows sorted) (hperm : rows.Perm rows') :
    IsSorted key rows' sorted :=
  ⟨h.perm.trans hperm, h.order⟩

/-- **What comes after the last element that was read** is what is left. -/
theorem behind_last (h : IsSorted key rows (before ++ rest)) :
    IsSorted key (rows.filter fun b => (before.getLast?.map key).all fun position => decide (position < key b)) rest := by
  obtain ⟨hbefore, hrest, hcross⟩ := List.pairwise_append.mp h.order
  have hfilter :
      (before ++ rest).filter
        (fun b => (before.getLast?.map key).all fun position => decide (position < key b)) = rest := by
    rcases List.eq_nil_or_concat before with rfl | ⟨front, last, rfl⟩
    · simp
    · rw [List.concat_eq_append] at hbefore hcross ⊢
      rw [List.filter_append, List.filter_eq_nil_iff.mpr, List.filter_eq_self.mpr, List.nil_append]
      · intro b hb
        simpa using hcross last (by simp) b hb
      · intro b hb
        rw [List.getLast?_concat, Option.map_some, Option.all_some, decide_eq_true_eq, not_lt]
        rcases List.mem_append.mp hb with hb | hb
        · exact ((List.pairwise_append.mp hbefore).2.2 b hb last (by simp)).le
        · rw [List.mem_singleton.mp hb]
  refine ⟨?_, hrest⟩
  have hperm := h.perm.filter fun b => (before.getLast?.map key).all fun position => decide (position < key b)
  rwa [hfilter] at hperm

/-- **Pages of a sorted list are a partition**, where each call answers with what comes after its position. -/
theorem partition_of_pages {ε π β : Type*} {call : Option π → Except ε (List β × Option π)} {answered : Prop}
    {visible : α → Prop} {limit : Nat} (encode : α → π) {result : α → β} (hanswered : answered)
    (h : IsSorted key rows sorted) (hvisible : ∀ a, a ∈ rows ↔ visible a) (hlimit : 0 < limit)
    (hcall : ∀ before rest, IsSorted key rows (before ++ rest) → call (before.getLast?.map encode) =
      .ok ((page limit encode rest).1.map result, (page limit encode rest).2)) :
    Partition answered visible (fun a b => key a < key b) result call := by
  have hwalk : Walk call none (sorted.map result) :=
    walk_of_pages hlimit fun before rest hsplit => hcall before rest (hsplit ▸ h)
  refine ⟨fun _ => ⟨sorted, fun read => ⟨fun hread => hread.unique hwalk, fun hread => hread ▸ hwalk⟩, ?_, h.order,
    fun a => ?_⟩, fun hno => absurd hanswered hno⟩
  · exact h.order.imp fun hlt heq => absurd (heq ▸ hlt) (lt_irrefl _)
  · rw [h.perm.mem_iff, hvisible]

end After

end Keyset
