import Mathlib

/-!
# Deleting what a pattern matches

A pattern reads a text from its begin and says what follows the match. It is `Local` if a match depends on the matched
text only. What a pattern matches is deleted from left to right (`delete`); `Without` says that matches are taken out of a
text, in any choice of them.

* `Local.seq`, `Local.skip`, `Local.lazy`: patterns that are made of others.
* `delete_of_clean`: a text without a match stays as it is.
* `without_delete`, `kept_delete`: a part of what is left comes from a part of the text.
* `clean_of_unbroken`: a text of which two deletions leave no match.
* `unbroken_of_clean`: the converse for texts with one match.
-/

namespace Deletion

variable {α : Type*}

/-- A pattern: what follows the match at the begin of a text. -/
abbrev Pattern (α : Type*) := List α → Option (List α)

/-! ## Patterns -/

/-- One element after the other. -/
def word : List (α → Bool) → Pattern α
  | [], l => some l
  | _ :: _, [] => none
  | p :: ps, c :: l => if p c then word ps l else none

def seq (f g : Pattern α) : Pattern α := fun l => (f l).bind g

/-- As many elements with `p` as there are, and then `g`. -/
def skip (p : α → Bool) (g : Pattern α) : Pattern α := fun l => g (l.dropWhile p)

/-- As few elements with `p` as possible, and then `g`. -/
def lazy (p : α → Bool) (g : Pattern α) : Pattern α
  | [] => g []
  | c :: l =>
    match g (c :: l) with
    | some rest => some rest
    | none => if p c then lazy p g l else none

/-- No element with `p` comes next. -/
def notBefore (p : α → Bool) (g : Pattern α) : Pattern α := fun l => if l.head?.any p then none else g l

/-- A match depends on the matched text only. -/
structure Local (f : Pattern α) : Prop where
  split : ∀ {l rest}, f l = some rest → ∃ t, l = t ++ rest ∧ ∀ rest', f (t ++ rest') = some rest'

/-- A match begins with an element that has not `p`. -/
structure First (p : α → Bool) (f : Pattern α) : Prop where
  head : ∀ {l rest}, f l = some rest → ∃ c l', l = c :: l' ∧ p c = false

/-- A match has the length `k`. -/
structure Fixed (k : Nat) (f : Pattern α) : Prop where
  length : ∀ {l rest}, f l = some rest → l.length = k + rest.length
  append : ∀ {t}, k ≤ t.length → ∀ rest, f (t ++ rest) = (f t).map (· ++ rest)

variable {f g : Pattern α} {p q : α → Bool} {ps : List (α → Bool)} {k : Nat} {l rest t : List α} {c : α}

theorem fixed_word (ps : List (α → Bool)) : Fixed ps.length (word ps) := by
  induction ps with
  | nil =>
    refine ⟨fun h => ?_, fun _ rest => rfl⟩
    cases h
    exact (Nat.zero_add _).symm
  | cons p ps ih =>
    constructor
    · intro l rest h
      cases l with
      | nil => cases h
      | cons c l =>
        rw [word] at h
        split at h
        · have hlength := ih.length h
          rw [List.length_cons, List.length_cons]
          omega
        · cases h
    · intro t ht rest
      cases t with
      | nil => cases ht
      | cons c t =>
        rw [List.cons_append, word, word]
        split
        · exact ih.append (Nat.le_of_succ_le_succ ht) rest
        · rfl

theorem Fixed.split (h : Fixed k f) (hread : f l = some rest) :
    ∃ t, t.length = k ∧ l = t ++ rest ∧ ∀ rest', f (t ++ rest') = some rest' := by
  have hlength := h.length hread
  have htake : (l.take k).length = k := by rw [List.length_take]; omega
  have happend := h.append (Nat.le_of_eq htake.symm)
  have hwhole := happend (l.drop k)
  rw [List.take_append_drop, hread] at hwhole
  obtain ⟨rest₀, hrest₀, heq⟩ := Option.map_eq_some_iff.mp hwhole.symm
  have hnil : rest₀ = [] := by
    have hshort := h.length hrest₀
    exact List.length_eq_zero_iff.mp (by omega)
  subst hnil
  rw [List.nil_append] at heq
  refine ⟨l.take k, htake, by rw [← heq, List.take_append_drop], fun rest' => ?_⟩
  rw [happend, hrest₀]
  rfl

theorem Fixed.local (h : Fixed k f) : Local f := by
  constructor
  intro l rest hread
  obtain ⟨t, -, hl, ht⟩ := h.split hread
  exact ⟨t, hl, ht⟩

theorem Local.seq (hf : Local f) (hg : Local g) : Local (seq f g) := by
  constructor
  intro l rest h
  obtain ⟨between, hfirst, hsecond⟩ := Option.bind_eq_some_iff.mp h
  obtain ⟨t, rfl, ht⟩ := hf.split hfirst
  obtain ⟨t', rfl, ht'⟩ := hg.split hsecond
  refine ⟨t ++ t', (List.append_assoc t t' rest).symm, fun rest' => ?_⟩
  rw [Deletion.seq, List.append_assoc, ht, Option.bind_some, ht']

/-- A match is not empty. -/
theorem First.ne_nil (h : First p f) (hread : ∀ rest', f (t ++ rest') = some rest') :
    ∃ c t', t = c :: t' ∧ p c = false := by
  obtain ⟨c, l', hl, hc⟩ := h.head (hread [])
  rw [List.append_nil] at hl
  exact ⟨c, l', hl, hc⟩

theorem Local.skip (hg : Local g) (hfirst : First p g) : Local (skip p g) := by
  constructor
  intro l rest h
  obtain ⟨t, hl, ht⟩ := hg.split h
  obtain ⟨c, t', rfl, hc⟩ := hfirst.ne_nil ht
  refine ⟨l.takeWhile p ++ c :: t', ?_, fun rest' => ?_⟩
  · rw [List.append_assoc, ← hl, List.takeWhile_append_dropWhile]
  · have hdrop : (l.takeWhile p ++ c :: t' ++ rest').dropWhile p = c :: t' ++ rest' := by
      rw [List.append_assoc, List.dropWhile_append_of_pos fun a ha => List.mem_takeWhile_imp ha, List.cons_append,
        List.dropWhile_cons_of_neg (by rw [hc]; simp)]
    rw [Deletion.skip, hdrop, ht]

theorem lazy_of_some (h : g l = some rest) : lazy p g l = some rest := by
  cases l with
  | nil => exact h
  | cons c l => rw [lazy, h]

theorem Local.lazy (h : Fixed k g) : Local (lazy p g) := by
  have hsplit : ∀ l rest, Deletion.lazy p g l = some rest →
      ∃ t, k ≤ t.length ∧ l = t ++ rest ∧ ∀ rest', Deletion.lazy p g (t ++ rest') = some rest' := by
    intro l
    induction l with
    | nil =>
      intro rest hread
      obtain ⟨t, hlength, hl, ht⟩ := h.split hread
      exact ⟨t, Nat.le_of_eq hlength.symm, hl, fun rest' => lazy_of_some (ht rest')⟩
    | cons c l ih =>
      intro rest hread
      rw [Deletion.lazy] at hread
      cases hfound : g (c :: l) with
      | some rest' =>
        rw [hfound] at hread
        cases hread
        obtain ⟨t, hlength, hl, ht⟩ := h.split hfound
        exact ⟨t, Nat.le_of_eq hlength.symm, hl, fun rest' => lazy_of_some (ht rest')⟩
      | none =>
        rw [hfound] at hread
        dsimp only at hread
        split at hread
        · next hc =>
          obtain ⟨t, hlength, rfl, ht⟩ := ih rest hread
          refine ⟨c :: t, by rw [List.length_cons]; omega, rfl, fun rest' => ?_⟩
          -- whether `g` matches here does not depend on what follows
          have happend := @Fixed.append _ _ _ h (c :: t) (by rw [List.length_cons]; omega)
          have hnone : g (c :: t) = none := Option.map_eq_none_iff.mp ((happend rest).symm.trans hfound)
          rw [List.cons_append, Deletion.lazy, ← List.cons_append, happend, hnone]
          dsimp only [Option.map_none]
          rw [if_pos hc, ht]
        · cases hread
  constructor
  intro l rest hread
  obtain ⟨t, -, hl, ht⟩ := hsplit l rest hread
  exact ⟨t, hl, ht⟩

theorem Local.notBefore (hg : Local g) (hfirst : First q g) : Local (notBefore p g) := by
  constructor
  intro l rest h
  unfold Deletion.notBefore at h ⊢
  split at h
  · cases h
  · next hhead =>
    obtain ⟨t, rfl, ht⟩ := hg.split h
    obtain ⟨c, t', rfl, -⟩ := hfirst.ne_nil ht
    exact ⟨c :: t', rfl, fun rest' => (if_neg hhead).trans (ht rest')⟩

theorem first_word (h : ∀ c, q c = true → p c = false) : First p (word (q :: ps)) := by
  constructor
  intro l rest hread
  cases l with
  | nil => cases hread
  | cons c l =>
    rw [word] at hread
    split at hread
    · next hc => exact ⟨c, l, rfl, h c hc⟩
    · cases hread

theorem First.seq (h : First p f) : First p (seq f g) := by
  constructor
  intro l rest hread
  obtain ⟨between, hfirst, -⟩ := Option.bind_eq_some_iff.mp hread
  exact h.head hfirst

theorem First.skip (h : First p g) (hskip : ∀ c, q c = true → p c = false) : First p (skip q g) := by
  constructor
  intro l rest hread
  cases l with
  | nil => exact h.head hread
  | cons c l =>
    by_cases hc : q c = true
    · exact ⟨c, l, rfl, hskip c hc⟩
    · rw [Deletion.skip, List.dropWhile_cons_of_neg hc] at hread
      exact h.head hread

/-! ## Deletions -/

/-- The text without what the pattern matches; the first argument is what is left of the match that has been found. -/
def delete (f : Pattern α) : Nat → List α → List α
  | _, [] => []
  | left + 1, _ :: l => delete f left l
  | 0, c :: l =>
    match f (c :: l) with
    | some rest => delete f (l.length - rest.length) l
    | none => c :: delete f 0 l

/-- The text with some of what the pattern matches taken out. -/
inductive Without (f : Pattern α) : List α → List α → Prop
  | nil : Without f [] []
  | keep (c : α) {x t : List α} : Without f x t → Without f (c :: x) (c :: t)
  | take (piece : List α) {x t : List α} : f piece = some [] → Without f x t → Without f (piece ++ x) t

/-- The pattern matches nowhere. -/
def Clean (f : Pattern α) (l : List α) : Prop := ∀ s, s <:+ l → f s = none

variable {s x x' z u v before piece after : List α} {n : Nat}

theorem delete_of_clean (h : Clean f l) : delete f 0 l = l := by
  induction l with
  | nil => rfl
  | cons c l ih =>
    rw [delete, h _ (List.suffix_refl _)]
    dsimp only
    rw [ih fun s hs => h s (hs.trans (List.suffix_cons c l))]

theorem match_append (hlocal : Local f) (h : f piece = some []) (rest : List α) : f (piece ++ rest) = some rest := by
  obtain ⟨t, heq, hall⟩ := hlocal.split h
  rw [List.append_nil] at heq
  rw [heq, hall]

theorem Clean.ne_of_isInfix (h : Clean f l) (hlocal : Local f) (ht : t <:+: l) : f t ≠ some [] := by
  intro hmatch
  obtain ⟨u, v, rfl⟩ := ht
  have hnone := h (t ++ v) ⟨u, by rw [List.append_assoc]⟩
  rw [match_append hlocal hmatch] at hnone
  cases hnone

theorem delete_skip (f : Pattern α) (n : Nat) (l : List α) : delete f n l = delete f 0 (l.drop n) := by
  induction l generalizing n with
  | nil => cases n <;> rfl
  | cons c l ih =>
    cases n with
    | zero => rfl
    | succ n => exact ih n

theorem delete_none (h : f (c :: l) = none) : delete f 0 (c :: l) = c :: delete f 0 l := by rw [delete, h]

section Local

variable (hlocal : Local f) (hempty : f [] = none)
include hlocal hempty

/-- A match that is found is a text that is matched. -/
theorem match_split (h : f l = some rest) : ∃ piece, piece ≠ [] ∧ l = piece ++ rest ∧ f piece = some [] := by
  obtain ⟨piece, rfl, hall⟩ := hlocal.split h
  have hmatch := hall []
  rw [List.append_nil] at hmatch
  refine ⟨piece, ?_, rfl, hmatch⟩
  rintro rfl
  cases hempty.symm.trans hmatch

theorem delete_match (h : f l = some rest) : delete f 0 l = delete f 0 rest := by
  obtain ⟨piece, hne, rfl, -⟩ := match_split hlocal hempty h
  obtain ⟨c, piece, rfl⟩ := List.exists_cons_of_ne_nil hne
  rw [List.cons_append] at h ⊢
  have hlength : (piece ++ rest).length - rest.length = piece.length := by
    rw [List.length_append]
    omega
  rw [delete, h]
  dsimp only
  rw [hlength, delete_skip, List.drop_left]

/-- The induction along a deletion. -/
theorem delete_induction {motive : List α → Prop} (nil : motive [])
    (keep : ∀ c l, f (c :: l) = none → motive l → motive (c :: l))
    (take : ∀ piece rest, f (piece ++ rest) = some rest → f piece = some [] → motive rest → motive (piece ++ rest))
    (l : List α) :
    motive l := by
  induction hlength : l.length using Nat.strongRecOn generalizing l with
  | ind length ih =>
    subst hlength
    cases l with
    | nil => exact nil
    | cons c l =>
      cases h : f (c :: l) with
      | none => exact keep c l h (ih l.length (Nat.lt_succ_self _) l rfl)
      | some rest =>
        obtain ⟨piece, hne, heq, hmatch⟩ := match_split hlocal hempty h
        have hpos := List.length_pos_of_ne_nil hne
        have hless : rest.length < (c :: l).length := by
          rw [heq, List.length_append]
          omega
        rw [heq] at h ⊢
        exact take piece rest h hmatch (ih rest.length hless rest rfl)

/-- A beginning of what is left comes from a beginning of the text. -/
theorem without_delete (h : delete f 0 l = t ++ s) : ∃ x v, l = x ++ v ∧ Without f x t := by
  induction l using delete_induction hlocal hempty generalizing t with
  | nil =>
    cases t with
    | nil => exact ⟨[], [], rfl, .nil⟩
    | cons c t => cases h
  | keep c l hnone ih =>
    cases t with
    | nil => exact ⟨[], c :: l, rfl, .nil⟩
    | cons d t =>
      rw [delete_none hnone] at h
      obtain ⟨rfl, hrest⟩ := List.cons.inj h
      obtain ⟨x, v, rfl, hwithout⟩ := ih hrest
      exact ⟨c :: x, v, rfl, .keep c hwithout⟩
  | take piece rest hfound hmatch ih =>
    rw [delete_match hlocal hempty hfound] at h
    obtain ⟨x, v, rfl, hwithout⟩ := ih h
    exact ⟨piece ++ x, v, (List.append_assoc piece x v).symm, .take piece hmatch hwithout⟩

/-- A part of what is left comes from a part of the text, and where it begins nothing is matched. -/
theorem kept_delete (h : delete f 0 l = z ++ c :: t ++ s) :
    ∃ u x v, l = u ++ c :: x ++ v ∧ Without f x t ∧ f (c :: x ++ v) = none := by
  induction l using delete_induction hlocal hempty generalizing z with
  | nil => cases z <;> cases h
  | keep d l hnone ih =>
    rw [delete_none hnone] at h
    cases z with
    | nil =>
      obtain ⟨rfl, hrest⟩ := List.cons.inj h
      obtain ⟨x, v, rfl, hwithout⟩ := without_delete hlocal hempty hrest
      exact ⟨[], x, v, rfl, hwithout, hnone⟩
    | cons e z =>
      obtain ⟨u, x, v, rfl, hwithout, hfirst⟩ := ih (List.cons.inj h).2
      exact ⟨d :: u, x, v, rfl, hwithout, hfirst⟩
  | take piece rest hfound hmatch ih =>
    rw [delete_match hlocal hempty hfound] at h
    obtain ⟨u, x, v, rfl, hwithout, hfirst⟩ := ih h
    exact ⟨piece ++ u, x, v, by simp, hwithout, hfirst⟩

end Local

/-! ## Texts with one match -/

/-- Only this piece is matched, by one of the patterns, and nothing is matched by the second one when the first one has
taken it out. -/
structure OnlyMatch (f g : Pattern α) (before piece after : List α) : Prop where
  matched : f piece = some [] ∨ g piece = some []
  only : ∀ s, s <:+ before ++ (piece ++ after) → s ≠ piece ++ after → f s = none ∧ g s = none
  apart : f (piece ++ after) = none ∨ g (piece ++ after) = none
  joined : f piece = some [] → Clean g (before ++ after)

theorem without_clean (hlocal : Local f) (hx : x <:+: l) (hclean : Clean f l) (h : Without f x t) : t = x := by
  induction h with
  | nil => rfl
  | keep c hwithout ih =>
    rw [ih ((List.suffix_cons c _).isInfix.trans hx)]
  | take piece hmatch hwithout ih =>
    exact absurd hmatch (hclean.ne_of_isInfix hlocal ((List.prefix_append _ _).isInfix.trans hx))

section Only

variable (hlocal : Local f) (hempty : f [] = none)
include hlocal hempty

/-- The only match is what is taken out, if anything is. -/
theorem without_only (hl : before ++ (piece ++ after) = u ++ x ++ v)
    (honly : ∀ s, s <:+ before ++ (piece ++ after) → s ≠ piece ++ after → f s = none)
    (hpiece : f (piece ++ after) = none ∨ f piece = some [])
    (h : Without f x t) :
    t = x ∨ f piece = some [] ∧ ∃ x₁ x₂, x = x₁ ++ piece ++ x₂ ∧ t = x₁ ++ x₂ ∧ before = u ++ x₁ ∧ after = x₂ ++ v := by
  induction h generalizing u with
  | nil => exact .inl rfl
  | @keep c x t hwithout ih =>
    rcases ih (u := u ++ [c]) (by simpa using hl) with rfl | ⟨hmatch, x₁, x₂, rfl, rfl, hbefore, hafter⟩
    · exact .inl rfl
    · exact .inr ⟨hmatch, c :: x₁, x₂, rfl, rfl, by simpa using hbefore, hafter⟩
  | @take found x t hfound hwithout ih =>
    have hsuffix : found ++ (x ++ v) <:+ before ++ (piece ++ after) := ⟨u, by rw [hl]; simp⟩
    have hread : f (found ++ (x ++ v)) = some (x ++ v) := match_append hlocal hfound _
    have hsame : found ++ (x ++ v) = piece ++ after := by
      by_contra hne
      rw [honly _ hsuffix hne] at hread
      cases hread
    have hmatch : f piece = some [] := by
      rcases hpiece with hnone | hmatch
      · rw [hsame, hnone] at hread
        cases hread
      · exact hmatch
    rw [hsame, match_append hlocal hmatch] at hread
    obtain rfl : after = x ++ v := Option.some.inj hread
    obtain rfl : found = piece := List.append_cancel_right hsame
    have hbefore : before = u := by
      have hwhole : before ++ (found ++ (x ++ v)) = u ++ (found ++ (x ++ v)) := by
        rw [hl]
        simp
      exact List.append_cancel_right hwhole
    rcases ih (u := u ++ found) (by simpa using hl) with rfl | ⟨-, x₁, x₂, -, -, hlonger, -⟩
    · exact .inr ⟨hmatch, [], t, rfl, rfl, by simpa using hbefore, rfl⟩
    · -- a second match would be the first one again
      have hlength := congrArg List.length (hbefore.symm.trans hlonger)
      have hpos : found ≠ [] := by
        rintro rfl
        cases hempty.symm.trans hmatch
      have hlong := List.length_pos_of_ne_nil hpos
      simp only [List.length_append] at hlength
      omega

theorem delete_only (honly : ∀ s, s <:+ before ++ (piece ++ after) → s ≠ piece ++ after → f s = none)
    (hmatch : f piece = some []) :
    delete f 0 (before ++ (piece ++ after)) = before ++ after := by
  have hpos : 0 < piece.length := by
    refine List.length_pos_of_ne_nil ?_
    rintro rfl
    cases hempty.symm.trans hmatch
  induction before with
  | nil =>
    have hclean : Clean f after := by
      intro s hs
      refine honly s (hs.trans (List.suffix_append piece after)) fun heq => ?_
      have hlength := hs.length_le
      rw [heq, List.length_append] at hlength
      omega
    rw [List.nil_append, delete_match hlocal hempty (match_append hlocal hmatch after), delete_of_clean hclean,
      List.nil_append]
  | cons c before ih =>
    have hnone : f (c :: (before ++ (piece ++ after))) = none := by
      refine honly _ (List.suffix_refl _) fun heq => ?_
      have hlength := congrArg List.length heq
      simp only [List.length_cons, List.length_append] at hlength
      omega
    rw [List.cons_append, delete_none hnone, ih fun s hs => honly s (hs.trans (List.suffix_cons c _)), List.cons_append]

end Only

/-! ## Two deletions -/

/-- Where a part of the text becomes a match of the first pattern when matches of both are taken out of it, the pattern
matches there as the text stands; and where it becomes a match of the second one, the part begins with a match when those
of the first one are taken out of it. -/
def Unbroken (f g : Pattern α) (l : List α) : Prop := ∀ u x v x' t, l = u ++ x ++ v → Without f x x' → Without g x' t →
  (f t = some [] → f (x ++ v) ≠ none) ∧ (g t = some [] → g x' ≠ none)

section Both

variable (hf : Local f) (hfempty : f [] = none) (hg : Local g) (hgempty : g [] = none)
include hf hfempty hg hgempty

/-- **A text of which the deletions leave no match.** -/
theorem clean_of_unbroken (h : Unbroken f g l) :
    Clean f (delete g 0 (delete f 0 l)) ∧ Clean g (delete g 0 (delete f 0 l)) := by
  have hpart : ∀ {z c t s}, delete g 0 (delete f 0 l) = z ++ c :: t ++ s →
      f (c :: t) ≠ some [] ∧ g (c :: t) ≠ some [] := by
    intro z c t s heq
    obtain ⟨u', x', v', hleft, hsecond, hnone'⟩ := kept_delete hg hgempty heq
    obtain ⟨u, x, v, hl, hfirst, hnone⟩ := kept_delete hf hfempty hleft
    obtain ⟨hscript, hevent⟩ := h u (c :: x) v (c :: x') (c :: t) hl (.keep c hfirst) (.keep c hsecond)
    refine ⟨fun hmatch => hscript hmatch hnone, fun hmatch => hevent hmatch ?_⟩
    by_contra hsome
    obtain ⟨rest, hrest⟩ := Option.ne_none_iff_exists'.mp hsome
    obtain ⟨piece, heq', hall⟩ := hg.split hrest
    rw [heq', List.append_assoc, hall] at hnone'
    cases hnone'
  have hclean : ∀ {k : Pattern α}, Local k → k [] = none →
    (∀ {z c t s}, delete g 0 (delete f 0 l) = z ++ c :: t ++ s → k (c :: t) ≠ some []) →
      Clean k (delete g 0 (delete f 0 l)) := by
    rintro k hk hkempty hno part ⟨z, hz⟩
    by_contra hsome
    obtain ⟨rest, hrest⟩ := Option.ne_none_iff_exists'.mp hsome
    obtain ⟨piece, hne, rfl, hmatch⟩ := match_split hk hkempty hrest
    obtain ⟨c, piece, rfl⟩ := List.exists_cons_of_ne_nil hne
    exact hno (hz.symm.trans (List.append_assoc z (c :: piece) rest).symm) hmatch
  exact ⟨hclean hf hfempty fun heq => (hpart heq).1, hclean hg hgempty fun heq => (hpart heq).2⟩

/-- **A text with one match, of which the deletions leave none.** -/
theorem unbroken_of_clean (h : OnlyMatch f g before piece after)
    (hfclean : Clean f (delete g 0 (delete f 0 (before ++ (piece ++ after)))))
    (hgclean : Clean g (delete g 0 (delete f 0 (before ++ (piece ++ after))))) :
    Unbroken f g (before ++ (piece ++ after)) := by
  have hfonly : ∀ s, s <:+ before ++ (piece ++ after) → s ≠ piece ++ after → f s = none :=
    fun s hs hne => (h.only s hs hne).1
  have hgonly : ∀ s, s <:+ before ++ (piece ++ after) → s ≠ piece ++ after → g s = none :=
    fun s hs hne => (h.only s hs hne).2
  -- where nothing has been taken out, the part is a match itself
  have hwhole : ∀ {x v : List α}, (f x = some [] → f (x ++ v) ≠ none) ∧ (g x = some [] → g x ≠ none) := by
    intro x v
    refine ⟨fun hmatch => ?_, fun hmatch => ?_⟩
    · rw [match_append hf hmatch]
      exact Option.some_ne_none _
    · rw [hmatch]
      exact Option.some_ne_none _
  have hpart : ∀ {u x₁ x₂ v : List α}, before = u ++ x₁ → after = x₂ ++ v → x₁ ++ x₂ <:+: before ++ after := by
    rintro u x₁ x₂ v rfl rfl
    exact ⟨u, v, by simp⟩
  intro u x v x' t hl hfirst hsecond
  rcases h.apart with hnone | hnone
  · -- the second pattern matches the piece
    have hclean : Clean f (before ++ (piece ++ after)) := by
      intro s hs
      by_cases heq : s = piece ++ after
      · rw [heq, hnone]
      · exact hfonly s hs heq
    have hmatch : g piece = some [] := by
      rcases h.matched with hmatch | hmatch
      · rw [match_append hf hmatch] at hnone
        cases hnone
      · exact hmatch
    rw [delete_of_clean hclean, delete_only hg hgempty hgonly hmatch] at hfclean hgclean
    obtain rfl : x' = x := without_clean hf ⟨u, v, hl.symm⟩ hclean hfirst
    rcases without_only hg hgempty hl hgonly (.inr hmatch) hsecond with rfl | ⟨-, x₁, x₂, -, rfl, hbefore, hafter⟩
    · exact hwhole
    · have hinfix := hpart hbefore hafter
      exact ⟨fun hft => absurd hft (hfclean.ne_of_isInfix hf hinfix),
        fun hgt => absurd hgt (hgclean.ne_of_isInfix hg hinfix)⟩
  · -- the first one does
    have hmatch : f piece = some [] := by
      rcases h.matched with hmatch | hmatch
      · exact hmatch
      · rw [match_append hg hmatch] at hnone
        cases hnone
    have hjoined := h.joined hmatch
    rw [delete_only hf hfempty hfonly hmatch, delete_of_clean hjoined] at hfclean hgclean
    rcases without_only hf hfempty hl hfonly (.inr hmatch) hfirst with rfl | ⟨-, x₁, x₂, -, rfl, hbefore, hafter⟩
    · rcases without_only hg hgempty hl hgonly (.inl hnone) hsecond with rfl | ⟨hboth, -⟩
      · exact hwhole
      · rw [match_append hg hboth] at hnone
        cases hnone
    · have hinfix := hpart hbefore hafter
      obtain rfl := without_clean hg hinfix hjoined hsecond
      exact ⟨fun hft => absurd hft (hfclean.ne_of_isInfix hf hinfix),
        fun hgt => absurd hgt (hgclean.ne_of_isInfix hg hinfix)⟩

end Both

end Deletion
