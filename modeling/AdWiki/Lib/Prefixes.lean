import Mathlib

/-!
# Prefixes of increasing lists

* `isPrefix_iff`: an increasing list begins with another one exactly if they have the same elements up to the last one of
  that.
* `filterMap_isPrefix_iff`: a list begins with what the elements of another one have.
-/

namespace Prefixes

variable {α : Type*} [LinearOrder α] {s l : List α} {i : Nat}

/-- Up to the last element of `l`, the elements are the same. -/
structure SameUpTo (s l : List α) : Prop where
  subset : ∀ a ∈ l, a ∈ s
  before : ∀ a ∈ s, ∀ b ∈ l, a < b → a ∈ l

theorem isPrefix_iff (hs : s.Pairwise (· < ·)) (hl : l.Pairwise (· < ·)) : l <+: s ↔ SameUpTo s l := by
  induction l generalizing s with
  | nil =>
    exact iff_of_true List.nil_prefix ⟨fun a ha => absurd ha List.not_mem_nil, fun a _ b hb => absurd hb List.not_mem_nil⟩
  | cons b l ih =>
    obtain ⟨hb, hl⟩ := List.pairwise_cons.mp hl
    cases s with
    | nil =>
      refine iff_of_false (fun hprefix => ?_) fun hsame => ?_
      · exact absurd (List.prefix_nil.mp hprefix) (List.cons_ne_nil b l)
      · exact absurd (hsame.subset b List.mem_cons_self) List.not_mem_nil
    | cons a s =>
      obtain ⟨ha, hs⟩ := List.pairwise_cons.mp hs
      rw [List.cons_prefix_cons, ih hs hl]
      constructor
      · rintro ⟨rfl, hsame⟩
        refine ⟨fun c hc => ?_, fun c hc d hd hlt => ?_⟩
        · rcases List.mem_cons.mp hc with rfl | hc
          · exact List.mem_cons_self
          · exact List.mem_cons_of_mem _ (hsame.subset c hc)
        · rcases List.mem_cons.mp hc with rfl | hcs
          · exact List.mem_cons_self
          · rcases List.mem_cons.mp hd with rfl | hdl
            · exact absurd hlt (lt_asymm (ha c hcs))
            · exact List.mem_cons_of_mem _ (hsame.before c hcs d hdl hlt)
      · intro hsame
        -- the least elements are the same
        have hhead : b = a := by
          rcases List.mem_cons.mp (hsame.subset b List.mem_cons_self) with heq | hmem
          · exact heq
          · have hbefore := hsame.before a List.mem_cons_self b List.mem_cons_self (ha b hmem)
            rcases List.mem_cons.mp hbefore with heq | hlater
            · exact heq.symm
            · exact absurd (hb a hlater) (lt_asymm (ha b hmem))
        subst hhead
        refine ⟨rfl, fun c hc => ?_, fun c hc d hd hlt => ?_⟩
        · rcases List.mem_cons.mp (hsame.subset c (List.mem_cons_of_mem _ hc)) with rfl | hmem
          · exact absurd (hb c hc) (lt_irrefl c)
          · exact hmem
        · rcases List.mem_cons.mp (hsame.before c (List.mem_cons_of_mem _ hc) d (List.mem_cons_of_mem _ hd) hlt) with
            rfl | hmem
          · exact absurd (ha c hc) (lt_irrefl c)
          · exact hmem

/-- What the elements have is, one by one, what the list begins with. -/
theorem filterMap_isPrefix_iff {α β : Type*} {f : β → Option α} {items : List β} {s : List α} :
    (∀ (i : Nat) (item : β), items[i]? = some item → ∃ a, f item = some a ∧ s[i]? = some a) ↔
      (∀ item ∈ items, ∃ a, f item = some a) ∧ items.filterMap f <+: s := by
  induction items generalizing s with
  | nil => simp
  | cons item items ih =>
    constructor
    · intro h
      obtain ⟨a, hitem, hs⟩ := h 0 item rfl
      obtain ⟨s, rfl⟩ : ∃ rest, s = a :: rest := by
        cases s with
        | nil => cases hs
        | cons b s => exact ⟨s, by rw [Option.some.inj hs]⟩
      obtain ⟨hall, hprefix⟩ := ih.mp fun i other hother => h (i + 1) other hother
      refine ⟨List.forall_mem_cons.mpr ⟨⟨a, hitem⟩, hall⟩, ?_⟩
      rw [List.filterMap_cons_some hitem]
      exact List.cons_prefix_cons.mpr ⟨rfl, hprefix⟩
    · rintro ⟨hall, hprefix⟩
      obtain ⟨⟨a, hitem⟩, hall⟩ := List.forall_mem_cons.mp hall
      rw [List.filterMap_cons_some hitem] at hprefix
      obtain ⟨s, rfl⟩ : ∃ rest, s = a :: rest := by
        obtain ⟨rest, rfl⟩ := hprefix
        exact ⟨_, rfl⟩
      have hrest := ih.mpr ⟨hall, (List.cons_prefix_cons.mp hprefix).2⟩
      intro i other hother
      cases i with
      | zero => exact ⟨a, Option.some.inj hother ▸ hitem, rfl⟩
      | succ i => exact hrest i other hother

end Prefixes
