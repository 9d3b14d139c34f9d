import Mathlib

/-!
# The nearest level that answers

A list of levels, nearest first, and a function that answers at a level or is silent; it sees the position of the level.

* `nearest_eq_some`: the answer is that of a level before which all levels are silent.
* `nearest_eq_none`: there is no answer where every level is silent.
* `nearest_rel`: functions whose answers are related at every level have related nearest answers.
-/

namespace Levels

variable {α β γ : Type*} {f : Nat → α → Option β} {g : Nat → α → Option γ} {l : List α} {b : β}

/-- `for (const [index, level] of levels.entries())`, with the first answer. -/
def nearest (f : Nat → α → Option β) (l : List α) : Option β := l.zipIdx.findSome? fun level => f level.2 level.1

/-- Every level before `i` is silent. -/
def SilentBefore (f : Nat → α → Option β) (l : List α) (i : Nat) : Prop :=
  ∀ (j : Nat) (a : α), j < i → l[j]? = some a → f j a = none

theorem nearest_eq_none : nearest f l = none ↔ ∀ (i : Nat) (a : α), l[i]? = some a → f i a = none := by
  rw [nearest, List.findSome?_eq_none_iff]
  constructor
  · intro h i a ha
    exact h (a, i) (List.mk_mem_zipIdx_iff_getElem?.mpr ha)
  · rintro h ⟨a, i⟩ ha
    exact h i a (List.mk_mem_zipIdx_iff_getElem?.mp ha)

theorem nearest_eq_some : nearest f l = some b ↔
    ∃ (i : Nat) (a : α), l[i]? = some a ∧ f i a = some b ∧ SilentBefore f l i := by
  have hget : ∀ j : Nat, l.zipIdx[j]? = l[j]?.map fun a => (a, j) := by
    intro j
    rw [List.getElem?_zipIdx, Nat.zero_add]
  rw [nearest, List.findSome?_eq_some_iff]
  constructor
  · rintro ⟨before, ⟨a, i⟩, after, hsplit, hb, hsilent⟩
    have hmid : l[before.length]?.map (fun c => (c, before.length)) = some (a, i) := by
      rw [← hget, hsplit, List.getElem?_append_right (Nat.le_refl _), Nat.sub_self]
      rfl
    obtain ⟨c, hc, hci⟩ := Option.map_eq_some_iff.mp hmid
    cases hci
    refine ⟨before.length, a, hc, hb, fun j c hj hjc => hsilent (c, j) ?_⟩
    have hj' : before[j]? = some (c, j) := by
      rw [← List.getElem?_append_left hj, ← hsplit, hget, hjc]
      rfl
    exact List.mem_of_getElem? hj'
  · rintro ⟨i, a, ha, hb, hsilent⟩
    have hi : l.zipIdx[i]? = some (a, i) := by
      rw [hget, ha]
      rfl
    obtain ⟨hlt, hai⟩ := List.getElem?_eq_some_iff.mp hi
    refine ⟨l.zipIdx.take i, (a, i), l.zipIdx.drop (i + 1), ?_, hb, ?_⟩
    · rw [← hai, ← List.drop_eq_getElem_cons hlt, List.take_append_drop]
    · rintro ⟨c, j⟩ hmem
      obtain ⟨k, hk⟩ := List.mem_iff_getElem?.mp hmem
      rw [List.getElem?_take] at hk
      split at hk
      · next hki =>
        rw [hget] at hk
        obtain ⟨c', hc', hcj⟩ := Option.map_eq_some_iff.mp hk
        cases hcj
        exact hsilent j c hki hc'
      · cases hk

/-- Answers that are related level by level. -/
theorem nearest_rel {R : β → γ → Prop} (h : ∀ (i : Nat) (a : α), l[i]? = some a → Option.Rel R (f i a) (g i a)) :
    Option.Rel R (nearest f l) (nearest g l) := by
  have hsilent : ∀ (i : Nat) (a : α), l[i]? = some a → (f i a = none ↔ g i a = none) := by
    intro i a ha
    rcases hf : f i a with _ | b <;> rcases hg : g i a with _ | c <;> have hrel := h i a ha <;> rw [hf, hg] at hrel <;>
      cases hrel <;> simp
  cases hf : nearest f l with
  | none =>
    have hg : nearest g l = none := nearest_eq_none.mpr fun i a ha => (hsilent i a ha).mp (nearest_eq_none.mp hf i a ha)
    rw [hg]
    exact .none
  | some b =>
    obtain ⟨i, a, ha, hb, hbefore⟩ := nearest_eq_some.mp hf
    have hrel := h i a ha
    rw [hb] at hrel
    cases hc : g i a with
    | none =>
      rw [hc] at hrel
      cases hrel
    | some c =>
      have hg : nearest g l = some c :=
        nearest_eq_some.mpr ⟨i, a, ha, hc, fun j x hj hx => (hsilent j x hx).mp (hbefore j x hj hx)⟩
      rw [hg]
      rw [hc] at hrel
      exact hrel

end Levels
