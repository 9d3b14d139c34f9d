import Mathlib

/-!
# Pages of a sorted list

Each page of a list is cut from a sorting of its own, and elements that tie may come in any order. The pages together are
the list for all such sortings exactly if no group of elements that tie reaches over the end of a page (`pages_perm_iff`).
-/

namespace Paging

variable {α : Type*} {le : α → α → Bool} {l out out' : List α} {a b : α} {limit m j k : Nat}

/-- A sorting of the list. -/
structure SortOf (le : α → α → Bool) (l out : List α) : Prop where
  perm : out.Perm l
  sorted : out.Pairwise fun a b => le a b

def page (limit k : Nat) (l : List α) : List α := (l.drop (k * limit)).take limit

/-- The first pages, each from the list for it. -/
def pages (limit : Nat) (sorts : Nat → List α) (n : Nat) : List α :=
  (List.range n).flatMap fun k => page limit k (sorts k)

/-- The elements that come before `a` in every sorting. -/
def before (le : α → α → Bool) (l : List α) (a : α) : Nat := l.countP fun b => !le a b

/-- The elements that may come before `a` or tie with it, and `a`. -/
def upTo (le : α → α → Bool) (l : List α) (a : α) : Nat := l.countP fun b => le b a

/-- The cut after the first `m` elements parts no elements that tie. -/
def Clean (le : α → α → Bool) (l : List α) (m : Nat) : Prop := ∀ a ∈ l, ¬(before le l a < m ∧ m < upTo le l a)

section Preorder

variable (htrans : ∀ a b c, le a b → le b c → le a c) (htotal : ∀ a b, le a b ∨ le b a)

/-- A property that goes down is that of the first elements of a sorted list. -/
theorem holds_iff_lt_countP {p : α → Bool} (hsorted : out.Pairwise fun a b => le a b) (hdown : ∀ a b, le a b → p b → p a)
    (hj : out[j]? = some a) : p a = true ↔ j < out.countP p := by
  obtain ⟨hlt, hget⟩ := List.getElem?_eq_some_iff.mp hj
  have hsplit : out = out.take j ++ a :: out.drop (j + 1) := by
    rw [← hget, ← List.drop_eq_getElem_cons hlt, List.take_append_drop]
  have hlength : (out.take j).length = j := List.length_take_of_le hlt.le
  rw [hsplit] at hsorted
  obtain ⟨-, hlater, hearlier⟩ := List.pairwise_append.mp hsorted
  rw [hsplit, List.countP_append]
  by_cases hp : p a = true
  · have hall : (out.take j).countP p = j := by
      rw [List.countP_eq_length.mpr fun b hb => hdown b a (hearlier b hb a List.mem_cons_self) hp, hlength]
    rw [hall, List.countP_cons_of_pos hp]
    exact iff_of_true hp (by omega)
  · have hnone : (out.drop (j + 1)).countP p = 0 :=
      List.countP_eq_zero.mpr fun b hb hpb => hp (hdown a b ((List.pairwise_cons.mp hlater).1 b hb) hpb)
    have hfew : (out.take j).countP p ≤ (out.take j).length := List.countP_le_length
    rw [List.countP_cons_of_neg hp, hnone]
    exact iff_of_false hp (by omega)

theorem SortOf.countP_eq (h : SortOf le l out) (p : α → Bool) : out.countP p = l.countP p := h.perm.countP_eq p

include htrans in
/-- Where an element may stand. -/
theorem SortOf.lt_upTo (h : SortOf le l out) (hj : out[j]? = some a) : le a b = true ↔ j < upTo le l b := by
  rw [upTo, ← h.countP_eq]
  exact holds_iff_lt_countP h.sorted (fun x y hxy hyb => htrans x y b hxy hyb) hj

include htrans in
theorem SortOf.lt_before (h : SortOf le l out) (hj : out[j]? = some a) : le b a = false ↔ j < before le l b := by
  rw [before, ← h.countP_eq, ← holds_iff_lt_countP h.sorted (p := fun x => !le b x) (fun x y hxy hby => ?_) hj,
    Bool.not_eq_true']
  rw [Bool.not_eq_true'] at hby ⊢
  by_contra hbx
  rw [htrans b x y (by simpa using hbx) hxy] at hby
  cases hby

include htrans htotal in
/-- The elements before a clean cut do not depend on the sorting. -/
theorem SortOf.mem_take (h : SortOf le l out) (hclean : Clean le l m) : a ∈ out.take m ↔ a ∈ l ∧ upTo le l a ≤ m := by
  have hself : ∀ x, le x x = true := fun x => by
    rcases htotal x x with hx | hx <;> exact hx
  constructor
  · intro hmem
    have ha : a ∈ l := h.perm.mem_iff.mp (List.mem_of_mem_take hmem)
    obtain ⟨j, hj⟩ := List.mem_iff_getElem?.mp hmem
    rw [List.getElem?_take] at hj
    split at hj
    · next hjm =>
      refine ⟨ha, ?_⟩
      by_contra hlong
      have hnot : ¬j < before le l a := fun hlt => by
        have hfalse := (h.lt_before htrans hj).mpr hlt
        rw [hself a] at hfalse
        cases hfalse
      exact hclean a ha ⟨by omega, by omega⟩
    · cases hj
  · rintro ⟨ha, hshort⟩
    obtain ⟨j, hj⟩ := List.mem_iff_getElem?.mp (h.perm.mem_iff.mpr ha)
    have hlt : j < upTo le l a := (h.lt_upTo htrans hj).mp (hself a)
    refine List.mem_iff_getElem?.mpr ⟨j, ?_⟩
    rw [List.getElem?_take, if_pos (by omega), hj]

include htrans htotal in
theorem SortOf.take_perm (h : SortOf le l out) (h' : SortOf le l out') (hnodup : l.Nodup) (hclean : Clean le l m) :
    (out.take m).Perm (out'.take m) := by
  have hfirst : (out.take m).Nodup := (h.perm.nodup_iff.mpr hnodup).sublist (List.take_sublist m out)
  have hsecond : (out'.take m).Nodup := (h'.perm.nodup_iff.mpr hnodup).sublist (List.take_sublist m out')
  refine (List.perm_ext_iff_of_nodup hfirst hsecond).mpr fun a => ?_
  rw [h.mem_take htrans htotal hclean, h'.mem_take htrans htotal hclean]

theorem pages_succ (sorts : Nat → List α) (n : Nat) :
    pages limit sorts (n + 1) = pages limit sorts n ++ page limit n (sorts n) := by
  rw [pages, List.range_succ, List.flatMap_append, List.flatMap_singleton]
  rfl

include htrans htotal in
/-- The first pages are the beginning of a sorting, in another order. -/
theorem pages_perm_take {sorts : Nat → List α} (hnodup : l.Nodup) (hsorts : ∀ k, SortOf le l (sorts k))
    (hclean : ∀ k, Clean le l (k * limit)) (n : Nat) : (pages limit sorts n).Perm ((sorts 0).take (n * limit)) := by
  induction n with
  | zero => simp [pages]
  | succ n ih =>
    have hsame := (hsorts 0).take_perm htrans htotal (hsorts n) hnodup (hclean n)
    have hnext : (sorts n).take (n * limit) ++ page limit n (sorts n) = (sorts n).take ((n + 1) * limit) := by
      rw [page, Nat.add_mul, Nat.one_mul, List.take_add]
    rw [pages_succ]
    refine ((ih.trans hsame).append_right _).trans ?_
    rw [hnext]
    exact (hsorts n).take_perm htrans htotal (hsorts 0) hnodup (hclean (n + 1))

/-- Two neighbours that tie change places. -/
theorem SortOf.swap {front rest : List α} (h : SortOf le l (front ++ a :: b :: rest)) (htie : le b a = true) :
    SortOf le l (front ++ b :: a :: rest) where
  perm := ((List.Perm.swap a b rest).append_left front).trans h.perm
  sorted := by
    obtain ⟨hfront, hrest, hcross⟩ := List.pairwise_append.mp h.sorted
    obtain ⟨hfirst, htail⟩ := List.pairwise_cons.mp hrest
    obtain ⟨hsecond, hlast⟩ := List.pairwise_cons.mp htail
    refine List.pairwise_append.mpr ⟨hfront, List.pairwise_cons.mpr ⟨?_, List.pairwise_cons.mpr ⟨?_, hlast⟩⟩, ?_⟩
    · intro c hc
      rcases List.mem_cons.mp hc with rfl | hc
      · exact htie
      · exact hsecond c hc
    · exact fun c hc => hfirst c (List.mem_cons_of_mem b hc)
    · intro c hc d hd
      refine hcross c hc d ?_
      simp only [List.mem_cons] at hd ⊢
      tauto

theorem mem_page {out : List α} (hj : out[j]? = some a) (hlow : k * limit ≤ j) (hhigh : j < (k + 1) * limit) :
    a ∈ page limit k out := by
  rw [Nat.add_mul, Nat.one_mul] at hhigh
  refine List.mem_iff_getElem?.mpr ⟨j - k * limit, ?_⟩
  rw [page, List.getElem?_take, if_pos (by omega), List.getElem?_drop, Nat.add_sub_cancel' hlow, hj]

include htrans htotal in
/-- Where a group of elements that tie reaches over the end of a page, one of them may come on the pages before and after
it. -/
theorem exists_pages_repeat (hnodup : l.Nodup) (hlimit : 0 < limit) (hbefore : before le l a < k * limit)
    (hafter : k * limit < upTo le l a) :
    ∃ sorts : Nat → List α, (∀ i, SortOf le l (sorts i)) ∧ ¬(pages limit sorts l.length).Perm l := by
  have hlength : upTo le l a ≤ l.length := List.countP_le_length
  obtain ⟨first, hfirst⟩ : ∃ first, SortOf le l first :=
    ⟨l.mergeSort le, List.mergeSort_perm l le, List.pairwise_mergeSort htrans (fun a b => by simpa using htotal a b) l⟩
  have hfirstLength := hfirst.perm.length_eq
  obtain ⟨m, hm⟩ : ∃ m, k * limit = m + 1 := ⟨k * limit - 1, by omega⟩
  -- the elements on the two sides of the end of the page tie with `a`
  obtain ⟨b, hb⟩ : ∃ b, first[m]? = some b := ⟨_, List.getElem?_eq_getElem (by omega)⟩
  obtain ⟨c, hc⟩ : ∃ c, first[m + 1]? = some c := ⟨_, List.getElem?_eq_getElem (by omega)⟩
  have hca : le c a = true := (hfirst.lt_upTo htrans hc).mpr (by omega)
  have hab : le a b = true := by
    by_contra hnot
    have hlt := (hfirst.lt_before htrans hb (b := a)).mp (by simpa using hnot)
    omega
  have hsplit : first = first.take m ++ b :: c :: first.drop (m + 2) := by
    obtain ⟨hlt, hgetb⟩ := List.getElem?_eq_some_iff.mp hb
    obtain ⟨hlt', hgetc⟩ := List.getElem?_eq_some_iff.mp hc
    rw [← hgetb, ← hgetc, ← List.drop_eq_getElem_cons hlt', ← List.drop_eq_getElem_cons hlt, List.take_append_drop]
  have hfront : (first.take m).length = m := List.length_take_of_le (by omega)
  have hswap : SortOf le l (first.take m ++ c :: b :: first.drop (m + 2)) :=
    SortOf.swap (hsplit ▸ hfirst) (htrans c a b hca hab)
  refine ⟨fun i => if i < k then first else first.take m ++ c :: b :: first.drop (m + 2), fun i => ?_, fun hperm => ?_⟩
  · dsimp only
    split
    · exact hfirst
    · exact hswap
  -- `b` is the last element of one page and the first of the next
  have hpos : 0 < k := Nat.pos_of_ne_zero fun hzero => by simp [hzero] at hm
  have hk : k ≤ k * limit := Nat.le_mul_of_pos_right k hlimit
  have hlast : b ∈ page limit (k - 1) first := by
    have hpred : (k - 1) * limit = k * limit - limit := by rw [Nat.sub_mul, Nat.one_mul]
    refine mem_page hb (by omega) ?_
    rw [Nat.sub_add_cancel hpos]
    omega
  have hnext : b ∈ page limit k (first.take m ++ c :: b :: first.drop (m + 2)) := by
    have hget : (first.take m ++ c :: b :: first.drop (m + 2))[m + 1]? = some b := by
      rw [List.getElem?_append_right (by omega), hfront, Nat.add_sub_cancel_left]
      rfl
    refine mem_page hget (by omega) ?_
    rw [Nat.add_mul, Nat.one_mul]
    omega
  have hdisjoint := (List.nodup_flatMap.mp (hperm.nodup_iff.mpr hnodup)).2
  have hapart :=
    List.pairwise_iff_getElem.mp hdisjoint (k - 1) k (by rw [List.length_range]; omega) (by rw [List.length_range]; omega)
    (by omega)
  rw [List.getElem_range, List.getElem_range, Function.onFun] at hapart
  dsimp only at hapart
  rw [if_pos (by omega), if_neg (lt_irrefl k)] at hapart
  exact hapart hlast hnext

include htrans htotal in
/-- The pages are the list for all sortings exactly if every cut between two pages is clean. -/
theorem pages_perm_iff (hnodup : l.Nodup) (hlimit : 0 < limit) :
    (∀ sorts : Nat → List α, (∀ k, SortOf le l (sorts k)) → ∀ n, l.length ≤ n * limit → (pages limit sorts n).Perm l) ↔
      ∀ k, Clean le l (k * limit) := by
  constructor
  · rintro h k a - ⟨hbefore, hafter⟩
    obtain ⟨sorts, hsorts, hnot⟩ := exists_pages_repeat htrans htotal hnodup hlimit hbefore hafter
    exact hnot (h sorts hsorts l.length (Nat.le_mul_of_pos_right _ hlimit))
  · intro hclean sorts hsorts n hn
    have hpages := pages_perm_take htrans htotal hnodup hsorts hclean n
    rw [List.take_of_length_le (by rw [(hsorts 0).perm.length_eq]; exact hn)] at hpages
    exact hpages.trans (hsorts 0).perm

end Preorder

end Paging
