import Mathlib

/-!
# Keeping the newest of each bucket

A list of items, newest first, is thinned out by rules. A rule puts each item in a bucket and takes the newest item of
each of the first `limit` buckets (`newest`); an item is kept if it is the newest of all or some rule takes it (`kept`).

* `newest_of_sublist`: a rule takes the same items of a shorter list that has everything it takes of the longer one.
* `kept_kept`, `kept_cons_kept`: thinning out twice is thinning out once, also when a new item comes in between. So it
  makes no difference whether a growing list is thinned out after each item or once at the end.
-/

namespace Buckets

variable {α κ : Type*} [DecidableEq κ]

/-- What a rule takes, if the buckets in `seen` have been taken from before. -/
def newest (key : α → κ) (limit : Nat) : List κ → List α → List α
  | _, [] => []
  | seen, a :: l =>
    if key a ∈ seen ∨ limit ≤ seen.length then newest key limit seen l else a :: newest key limit (key a :: seen) l

variable {key : α → κ} {limit : Nat} {seen seen' : List κ} {a b : α} {l l' : List α}

theorem newest_cons : newest key limit seen (a :: l) =
    if key a ∈ seen ∨ limit ≤ seen.length then newest key limit seen l else a :: newest key limit (key a :: seen) l :=
  rfl

theorem newest_sublist : (newest key limit seen l).Sublist l := by
  induction l generalizing seen with
  | nil => exact List.Sublist.refl _
  | cons a l ih =>
    rw [newest_cons]
    split
    · exact ih.cons a
    · exact ih.cons_cons a

theorem mem_of_mem_newest (h : a ∈ newest key limit seen l) : a ∈ l := newest_sublist.subset h

theorem newest_of_full (h : limit ≤ seen.length) : newest key limit seen l = [] := by
  induction l with
  | nil => rfl
  | cons a l ih => rw [newest_cons, if_pos (Or.inr h), ih]

/-- The more buckets have been taken from, the less a rule takes. -/
theorem newest_anti (hnodup : seen.Nodup) (hsub : seen ⊆ seen') (h : a ∈ newest key limit seen' l) :
    a ∈ newest key limit seen l := by
  induction l generalizing seen seen' with
  | nil => cases h
  | cons b l ih =>
    have hlength : seen.length ≤ seen'.length := (List.subperm_of_subset hnodup hsub).length_le
    rw [newest_cons] at h ⊢
    by_cases hskip : key b ∈ seen ∨ limit ≤ seen.length
    · -- what the first rule skips, the second one skips too
      have hskip' : key b ∈ seen' ∨ limit ≤ seen'.length :=
        hskip.imp (fun hb => hsub hb) fun hfull => Nat.le_trans hfull hlength
      rw [if_pos hskip'] at h
      rw [if_pos hskip]
      exact ih hnodup hsub h
    · rw [if_neg hskip]
      have hnew : (key b :: seen).Nodup := List.nodup_cons.mpr ⟨fun hb => hskip (Or.inl hb), hnodup⟩
      by_cases hskip' : key b ∈ seen' ∨ limit ≤ seen'.length
      · rw [if_pos hskip'] at h
        rcases hskip' with hseen | hfull
        · exact List.mem_cons_of_mem b (ih hnew (List.cons_subset.mpr ⟨hseen, hsub⟩) h)
        · rw [newest_of_full hfull] at h
          cases h
      · rw [if_neg hskip'] at h
        rcases List.mem_cons.mp h with rfl | h
        · exact List.mem_cons_self
        · exact List.mem_cons_of_mem b (ih hnew (List.cons_subset_cons (key b) hsub) h)

/-- A shorter list from which nothing is missing that the rule takes. -/
theorem newest_of_sublist (hnodup : l.Nodup) (hsub : l'.Sublist l) (htaken : ∀ a ∈ newest key limit seen l, a ∈ l') :
    newest key limit seen l' = newest key limit seen l := by
  induction hsub generalizing seen with
  | slnil => rfl
  | @cons l' l a hsub ih =>
    obtain ⟨ha, hnodup⟩ := List.nodup_cons.mp hnodup
    rw [newest_cons] at htaken
    split at htaken
    · next hskip =>
      rw [newest_cons, if_pos hskip]
      exact ih hnodup htaken
    · exact absurd (hsub.subset (htaken a List.mem_cons_self)) ha
  | @cons_cons l' l a hsub ih =>
    obtain ⟨ha, hnodup⟩ := List.nodup_cons.mp hnodup
    have hother : ∀ b, b ∈ l → b ∈ a :: l' → b ∈ l' := by
      intro b hb hmem
      rcases List.mem_cons.mp hmem with rfl | hmem
      · exact absurd hb ha
      · exact hmem
    simp only [newest_cons] at htaken ⊢
    split
    · next hskip =>
      rw [if_pos hskip] at htaken
      exact ih hnodup fun b hb => hother b (mem_of_mem_newest hb) (htaken b hb)
    · next htake =>
      rw [if_neg htake] at htaken
      rw [ih hnodup fun b hb => hother b (mem_of_mem_newest hb) (htaken b (List.mem_cons_of_mem a hb))]

/-- Of a list with a new item, a rule takes the new item and what it takes of the old list. -/
theorem mem_newest_cons (h : a ∈ newest key limit [] (b :: l)) : a = b ∨ a ∈ newest key limit [] l := by
  rw [newest_cons] at h
  split at h
  · exact Or.inr h
  · rcases List.mem_cons.mp h with hab | h
    · exact Or.inl hab
    · exact Or.inr (newest_anti List.nodup_nil (List.nil_subset _) h)

/-! ## Several rules -/

/-- A way to put items in buckets, and the number of buckets from which an item is kept. -/
structure Rule (α κ : Type*) where
  key : α → κ
  limit : Nat

/-- The item is the newest of the list, or a rule takes it. -/
def Keeps (rules : List (Rule α κ)) (l : List α) (a : α) : Prop :=
  l.head? = some a ∨ ∃ rule ∈ rules, a ∈ newest rule.key rule.limit [] l

variable {rules : List (Rule α κ)}

theorem Keeps.mem (h : Keeps rules l a) : a ∈ l := by
  rcases h with hhead | ⟨rule, -, h⟩
  · exact List.mem_of_head? hhead
  · exact mem_of_mem_newest h

variable [DecidableEq α]

instance (rules : List (Rule α κ)) (l : List α) (a : α) : Decidable (Keeps rules l a) := instDecidableOr

def kept (rules : List (Rule α κ)) (l : List α) : List α := l.filter fun a => Keeps rules l a

theorem mem_kept : a ∈ kept rules l ↔ Keeps rules l a := by
  rw [kept, List.mem_filter, decide_eq_true_eq]
  exact ⟨fun h => h.2, fun h => ⟨h.mem, h⟩⟩

theorem kept_sublist : (kept rules l).Sublist l := List.filter_sublist

theorem head?_kept : (kept rules l).head? = l.head? := by
  cases l with
  | nil => rfl
  | cons a l =>
    have hkeeps : Keeps rules (a :: l) a := Or.inl rfl
    rw [kept, List.filter_cons_of_pos (by simpa using hkeeps)]
    rfl

/-- A sublist is what a list has in common with it. -/
theorem eq_filter_of_sublist (hnodup : l.Nodup) (hsub : l'.Sublist l) : l' = l.filter (· ∈ l') := by
  have hself : l'.filter (· ∈ l') = l' := List.filter_eq_self.mpr fun a ha => by simpa using ha
  have hle : l'.Sublist (l.filter (· ∈ l')) := by simpa only [hself] using hsub.filter (· ∈ l')
  have hperm : l'.Perm (l.filter (· ∈ l')) := by
    refine (List.perm_ext_iff_of_nodup (hnodup.sublist hsub) (hnodup.filter _)).mpr fun a => ?_
    simpa using fun ha => hsub.subset ha
  exact hle.eq_of_length hperm.length_eq

/-- A shorter list with the same head, from which nothing is missing that is kept. -/
theorem kept_of_sublist (hnodup : l.Nodup) (hsub : l'.Sublist l) (hhead : l'.head? = l.head?)
    (hkept : ∀ a, Keeps rules l a → a ∈ l') : kept rules l' = kept rules l := by
  have hkeeps : ∀ a, Keeps rules l' a ↔ Keeps rules l a := by
    intro a
    have hrules : ∀ rule ∈ rules, newest rule.key rule.limit [] l' = newest rule.key rule.limit [] l := fun rule hrule =>
      newest_of_sublist hnodup hsub fun b hb => hkept b (Or.inr ⟨rule, hrule, hb⟩)
    unfold Keeps
    rw [hhead]
    refine or_congr_right (exists_congr fun rule => and_congr_right fun hrule => ?_)
    rw [hrules rule hrule]
  calc kept rules l' = l'.filter fun a => Keeps rules l a := List.filter_congr fun a _ => decide_eq_decide.mpr (hkeeps a)
    _ = (l.filter (· ∈ l')).filter fun a => Keeps rules l a := by rw [← eq_filter_of_sublist hnodup hsub]
    _ = kept rules l := by
      rw [List.filter_filter]
      refine List.filter_congr fun a _ => ?_
      rw [← Bool.decide_and, decide_eq_decide]
      exact ⟨fun h => h.1, fun h => ⟨h, hkept a h⟩⟩

/-- **Thinning out twice** is thinning out once. -/
theorem kept_kept (hnodup : l.Nodup) : kept rules (kept rules l) = kept rules l :=
  kept_of_sublist hnodup kept_sublist head?_kept fun _ h => mem_kept.mpr h

/-- **Thinning out before a new item comes** makes no difference. -/
theorem kept_cons_kept (hnodup : (b :: l).Nodup) : kept rules (b :: kept rules l) = kept rules (b :: l) := by
  refine kept_of_sublist hnodup (kept_sublist.cons_cons b) rfl fun a ha => ?_
  rcases ha with hhead | ⟨rule, hrule, ha⟩
  · cases hhead
    exact List.mem_cons_self
  · rcases mem_newest_cons ha with rfl | ha
    · exact List.mem_cons_self
    · exact List.mem_cons_of_mem b (mem_kept.mpr (Or.inr ⟨rule, hrule, ha⟩))

end Buckets
