import AdWiki.Lib.OrderedMap
import Mathlib

/-!
# Items in containers

A map from containers to lists of items, as a board has it whose items can be dragged from one list to another.

* `Apart`: every item is in one container at most, and there once. Then `containerOf`, which takes the first container
  that has the item, finds the only one.
* `Rearranged a`: the same containers, and every item but `a` where it was. `move` and `reorder` are of this kind, and
  keep the items apart.
-/

namespace Containers

variable {κ ι : Type*} [DecidableEq κ]

/-- The item is in the container. -/
def Holds (m : OrderedMap κ (List ι)) (c : κ) (x : ι) : Prop := ∃ l, m.get? c = some l ∧ x ∈ l

structure Apart (m : OrderedMap κ (List ι)) : Prop where
  nodup : ∀ c l, m.get? c = some l → l.Nodup
  unique : ∀ c c' x, Holds m c x → Holds m c' x → c = c'

structure Rearranged (a : ι) (m m' : OrderedMap κ (List ι)) : Prop where
  containers : ∀ c, (m'.get? c).isSome = (m.get? c).isSome
  others : ∀ x c, x ≠ a → (Holds m' c x ↔ Holds m c x)
  kept : (∃ c, Holds m' c a) ↔ ∃ c, Holds m c a

variable {m m' m'' : OrderedMap κ (List ι)} {a x : ι} {c c' d : κ} {i : Nat} {l l' : List ι}

/-- Lists that have no item twice, and together have none twice, are apart. -/
theorem apart_setAll {entries : List (κ × List ι)} (hkeys : (entries.map Prod.fst).Nodup)
    (hitems : (entries.flatMap Prod.snd).Nodup) : Apart (OrderedMap.empty.setAll entries) := by
  obtain ⟨hlists, hdisjoint⟩ := List.nodup_flatMap.mp hitems
  refine ⟨fun c l hl => hlists (c, l) ((OrderedMap.get?_setAll_eq_some hkeys).mp hl), fun c c' x hx hx' => ?_⟩
  obtain ⟨l, hl, hmem⟩ := hx
  obtain ⟨l', hl', hmem'⟩ := hx'
  have he := (OrderedMap.get?_setAll_eq_some hkeys).mp hl
  have he' := (OrderedMap.get?_setAll_eq_some hkeys).mp hl'
  by_contra hne
  have : Std.Symm (Function.onFun List.Disjoint (Prod.snd : κ × List ι → List ι)) := ⟨fun _ _ h _ hx hx' => h hx' hx⟩
  exact hdisjoint.forall he he' (fun heq => hne (congrArg Prod.fst heq)) hmem hmem'

theorem holds_setAll {entries : List (κ × List ι)} (hkeys : (entries.map Prod.fst).Nodup) :
    Holds (OrderedMap.empty.setAll entries) c x ↔ ∃ e ∈ entries, e.1 = c ∧ x ∈ e.2 := by
  constructor
  · rintro ⟨l, hl, hx⟩
    exact ⟨(c, l), (OrderedMap.get?_setAll_eq_some hkeys).mp hl, rfl, hx⟩
  · rintro ⟨⟨_, l⟩, he, rfl, hx⟩
    exact ⟨l, (OrderedMap.get?_setAll_eq_some hkeys).mpr he, hx⟩

theorem Holds.isSome (h : Holds m c x) : (m.get? c).isSome := by
  obtain ⟨l, hl, -⟩ := h
  rw [hl]
  rfl

theorem holds_set : Holds (m.set c l) d x ↔ if d = c then x ∈ l else Holds m d x := by
  unfold Holds
  rw [OrderedMap.get?_set]
  by_cases hd : d = c
  · rw [if_pos hd, if_pos hd]
    simp
  · rw [if_neg hd, if_neg hd]

namespace Rearranged

theorem refl : Rearranged a m m := ⟨fun _ => rfl, fun _ _ _ => Iff.rfl, Iff.rfl⟩

theorem trans (h : Rearranged a m m') (h' : Rearranged a m' m'') : Rearranged a m m'' :=
  ⟨fun c => (h'.containers c).trans (h.containers c), fun x c hx => (h'.others x c hx).trans (h.others x c hx),
    h'.kept.trans h.kept⟩

/-- The items are the same. -/
theorem held (h : Rearranged a m m') : (∃ c, Holds m' c x) ↔ ∃ c, Holds m c x := by
  by_cases hx : x = a
  · rw [hx, h.kept]
  · exact exists_congr fun c => h.others x c hx

end Rearranged

section Reorder

variable (hl : m.get? c = some l) (hperm : l'.Perm l)

include hl hperm

/-- Another order in one list. -/
theorem holds_reorder : Holds (m.set c l') d x ↔ Holds m d x := by
  rw [holds_set]
  by_cases hd : d = c
  · rw [if_pos hd, hd]
    simp [Holds, hl, hperm.mem_iff]
  · rw [if_neg hd]

theorem reorder_rearranged : Rearranged a m (m.set c l') := by
  refine ⟨fun d => ?_, fun x d _ => holds_reorder hl hperm, exists_congr fun d => holds_reorder hl hperm⟩
  rw [OrderedMap.get?_set]
  by_cases hd : d = c
  · rw [if_pos hd, hd, hl]
    rfl
  · rw [if_neg hd]

theorem reorder_apart (hm : Apart m) : Apart (m.set c l') := by
  refine ⟨fun d k hk => ?_, fun d d' x hd hd' => ?_⟩
  · rw [OrderedMap.get?_set] at hk
    by_cases hd : d = c
    · rw [if_pos hd] at hk
      cases hk
      exact hperm.nodup_iff.mpr (hm.nodup c l hl)
    · rw [if_neg hd] at hk
      exact hm.nodup d k hk
  · exact hm.unique d d' x ((holds_reorder hl hperm).mp hd) ((holds_reorder hl hperm).mp hd')

end Reorder

variable [DecidableEq ι]

/-- The first container that has the item. -/
def containerOf (m : OrderedMap κ (List ι)) (x : ι) : Option κ := (m.entries.find? fun e => e.2.contains x).map Prod.fst

/-- The item `a` goes from the end of one list to a place in another. -/
def move (m : OrderedMap κ (List ι)) (a : ι) (c c' : κ) (i : Nat) : OrderedMap κ (List ι) :=
  let items := (m.get? c).getD []
  let items' := (m.get? c').getD []
  (m.set c (items.filter (· ≠ a))).set c' (items'.take i ++ a :: items'.drop i)

theorem holds_of_containerOf (h : containerOf m x = some c) : Holds m c x := by
  obtain ⟨⟨d, l⟩, hfind, rfl⟩ := Option.map_eq_some_iff.mp h
  have hmem : (d, l) ∈ m.entries := List.mem_of_find?_eq_some hfind
  have hx := List.find?_some hfind
  exact ⟨l, OrderedMap.get?_eq_some.mpr hmem, by simpa using hx⟩

/-- Where the items are apart, the first container that has the item is the only one. -/
theorem containerOf_eq_some (h : Apart m) : containerOf m x = some c ↔ Holds m c x := by
  refine ⟨holds_of_containerOf, fun hx => ?_⟩
  obtain ⟨l, hl, hmem⟩ := hx
  cases hfound : containerOf m x with
  | none =>
    have hno := List.find?_eq_none.mp (Option.map_eq_none_iff.mp hfound) (c, l) (OrderedMap.get?_eq_some.mp hl)
    exact absurd (List.contains_iff_mem.mpr hmem) hno
  | some d => rw [h.unique d c x (holds_of_containerOf hfound) ⟨l, hl, hmem⟩]

section Move

variable (hm : Apart m) (ha : Holds m c a) (hne : c ≠ c') (hc' : (m.get? c').isSome)

include hm ha hne hc'

theorem holds_move : Holds (move m a c c' i) d x ↔ if x = a then d = c' else Holds m d x := by
  obtain ⟨l, hl, hal⟩ := ha
  obtain ⟨l', hl'⟩ := Option.isSome_iff_exists.mp hc'
  have hmem : x ∈ l'.take i ++ a :: l'.drop i ↔ x = a ∨ x ∈ l' := by
    conv_rhs => rw [← List.take_append_drop i l']
    simp only [List.mem_append, List.mem_cons]
    tauto
  unfold move
  rw [hl, hl', Option.getD_some, Option.getD_some, holds_set, holds_set, hmem]
  by_cases hx : x = a
  · rw [if_pos hx, hx]
    by_cases hd' : d = c'
    · simp [hd']
    · rw [if_neg hd']
      by_cases hd : d = c
      · rw [if_pos hd]
        simp [hd, hne]
      · rw [if_neg hd]
        refine ⟨fun hold => absurd (hm.unique d c a hold ⟨l, hl, hal⟩) hd, fun heq => absurd heq hd'⟩
  · rw [if_neg hx]
    by_cases hd' : d = c'
    · rw [if_pos hd', hd']
      simp [Holds, hl', hx]
    · rw [if_neg hd']
      by_cases hd : d = c
      · rw [if_pos hd, hd]
        simp [Holds, hl, hx]
      · rw [if_neg hd]

theorem move_rearranged : Rearranged a m (move m a c c' i) := by
  obtain ⟨l, hl, hal⟩ := ha
  refine ⟨fun d => ?_, fun x d hx => ?_, ?_⟩
  · unfold move
    rw [OrderedMap.get?_set, OrderedMap.get?_set]
    by_cases hd' : d = c'
    · rw [if_pos hd', hd', hc']
      rfl
    · rw [if_neg hd']
      by_cases hd : d = c
      · rw [if_pos hd, hd, hl]
        rfl
      · rw [if_neg hd]
  · rw [holds_move hm ⟨l, hl, hal⟩ hne hc', if_neg hx]
  · exact ⟨fun _ => ⟨c, l, hl, hal⟩, fun _ => ⟨c', (holds_move hm ⟨l, hl, hal⟩ hne hc').mpr (by rw [if_pos rfl])⟩⟩

theorem move_apart : Apart (move m a c c' i) := by
  refine ⟨fun d k hk => ?_, fun d d' x hd hd' => ?_⟩
  · obtain ⟨l', hl'⟩ := Option.isSome_iff_exists.mp hc'
    unfold move at hk
    rw [OrderedMap.get?_set, OrderedMap.get?_set, hl', Option.getD_some] at hk
    by_cases hdc' : d = c'
    · rw [if_pos hdc'] at hk
      cases hk
      have hnot : a ∉ l' := fun hmem => hne (hm.unique c c' a ha ⟨l', hl', hmem⟩)
      have hperm : (l'.take i ++ a :: l'.drop i).Perm (a :: l') := by
        conv_rhs => rw [← List.take_append_drop i l']
        exact List.perm_middle
      exact hperm.nodup_iff.mpr (List.nodup_cons.mpr ⟨hnot, hm.nodup c' l' hl'⟩)
    · rw [if_neg hdc'] at hk
      by_cases hdc : d = c
      · obtain ⟨l, hl, -⟩ := ha
        rw [if_pos hdc, hl] at hk
        cases hk
        exact (hm.nodup c l hl).filter _
      · rw [if_neg hdc] at hk
        exact hm.nodup d k hk
  · rw [holds_move hm ha hne hc'] at hd hd'
    by_cases hx : x = a
    · rw [if_pos hx] at hd hd'
      rw [hd, hd']
    · rw [if_neg hx] at hd hd'
      exact hm.unique d d' x hd hd'

end Move

end Containers
