import Mathlib

/-!
# Letters and breaks

A text is a list of letters and breaks. Runs of breaks become one separator, and those at the ends nothing; what comes out
is determined by the outline of the text, which is its letters, each with whether it begins a word.

* `strip_collapse`, `collapse_trimBreaks`: two ways to take the breaks at the ends off.
* `joined_inj`: texts with different outlines become different words.
-/

namespace Words

variable {α : Type*} {a : α} {b : Bool} {s t : List (Option α)}

/-- The letters, each with whether it begins a word; the first argument is whether a word begins here. -/
def outlineFrom : Bool → List (Option α) → List (α × Bool)
  | _, [] => []
  | _, none :: s => outlineFrom true s
  | b, some a :: s => (a, b) :: outlineFrom false s

def outline (s : List (Option α)) : List (α × Bool) := outlineFrom true s

theorem outline_breaks (h : ∀ x ∈ s, x = none) (t : List (Option α)) : outline (s ++ t) = outline t := by
  induction s with
  | nil => rfl
  | cons x s ih =>
    obtain rfl := h x List.mem_cons_self
    exact ih fun x hx => h x (List.mem_cons_of_mem _ hx)

theorem outlineFrom_append_breaks (h : ∀ x ∈ t, x = none) : outlineFrom b (s ++ t) = outlineFrom b s := by
  induction s generalizing b with
  | nil =>
    rw [List.nil_append]
    induction t generalizing b with
    | nil => rfl
    | cons x t ih =>
      obtain rfl := h x List.mem_cons_self
      exact ih fun x hx => h x (List.mem_cons_of_mem _ hx)
  | cons x s ih =>
    cases x with
    | none => exact ih
    | some a => exact congrArg ((a, b) :: ·) ih

/-- Breaks at the ends are no part of the outline. -/
theorem outline_between (hs : ∀ x ∈ s, x = none) (ht : ∀ x ∈ t, x = none) (middle : List (Option α)) :
    outline (s ++ middle ++ t) = outline middle := by
  rw [List.append_assoc, outline_breaks hs]
  exact outlineFrom_append_breaks ht

def trimBreaks (s : List (Option α)) : List (Option α) :=
  ((s.dropWhile Option.isNone).reverse.dropWhile Option.isNone).reverse

theorem dropWhile_eq_trimBreaks (s : List (Option α)) : s.dropWhile Option.isNone =
    trimBreaks s ++ ((s.dropWhile Option.isNone).reverse.takeWhile Option.isNone).reverse := by
  have hback := List.takeWhile_append_dropWhile (p := Option.isNone) (l := (s.dropWhile Option.isNone).reverse)
  rw [trimBreaks, ← List.reverse_append, hback, List.reverse_reverse]

theorem outline_trimBreaks (s : List (Option α)) : outline (trimBreaks s) = outline s := by
  have hbreaks : ∀ (s : List (Option α)), ∀ x ∈ s.takeWhile Option.isNone, x = none := by
    intro s x hx
    exact Option.isNone_iff_eq_none.mp (List.mem_takeWhile_imp hx)
  have hfront := List.takeWhile_append_dropWhile (p := Option.isNone) (l := s)
  rw [dropWhile_eq_trimBreaks, ← List.append_assoc] at hfront
  conv_rhs => rw [← hfront]
  rw [outline_between (hbreaks s)]
  intro x hx
  exact hbreaks _ x (List.mem_reverse.mp hx)

/-- No break is left at the beginning. -/
theorem head_trimBreaks (s rest : List (Option α)) : trimBreaks s ≠ none :: rest := by
  intro htrim
  have hnot := List.head?_dropWhile_not Option.isNone s
  rw [dropWhile_eq_trimBreaks, htrim] at hnot
  exact absurd hnot (by simp)

theorem getLast_trimBreaks (s : List (Option α)) : (trimBreaks s).getLast?.any Option.isNone = false := by
  have hnot := List.head?_dropWhile_not Option.isNone (s.dropWhile Option.isNone).reverse
  unfold trimBreaks
  rw [List.getLast?_reverse]
  cases hhead : ((s.dropWhile Option.isNone).reverse.dropWhile Option.isNone).head? with
  | none => rfl
  | some x =>
    rw [hhead] at hnot
    simpa using hnot

/-! ## Separators -/

variable (sep : α)

/-- A letter, behind a separator where it begins a word. -/
def spell : α × Bool → List α
  | (a, true) => [sep, a]
  | (a, false) => [a]

/-- The words with a separator between them. -/
def joined (l : List (α × Bool)) : List α := (l.flatMap (spell sep)).drop 1

/-- Every run of breaks becomes a separator. -/
def collapse : List (Option α) → List α
  | [] => []
  | some a :: s => a :: collapse s
  | none :: none :: s => collapse (none :: s)
  | none :: s => sep :: collapse s

variable {sep}

theorem mem_collapse (h : a ∈ collapse sep s) : a = sep ∨ some a ∈ s := by
  fun_induction collapse sep s with
  | case1 => cases h
  | case2 b s ih =>
    rcases List.mem_cons.mp h with rfl | h
    · exact .inr List.mem_cons_self
    · exact (ih h).imp_right (List.mem_cons_of_mem _)
  | case3 s ih => exact (ih h).imp_right (List.mem_cons_of_mem _)
  | case4 s hnext ih =>
    rcases List.mem_cons.mp h with rfl | h
    · exact .inl rfl
    · exact (ih h).imp_right (List.mem_cons_of_mem _)

/-- A run of breaks at the end leaves a separator too. -/
theorem collapse_eq (s : List (Option α)) :
    collapse sep s = (outlineFrom false s).flatMap (spell sep) ++ if s.getLast?.any Option.isNone then [sep] else [] := by
  fun_induction collapse sep s with
  | case1 => rfl
  | case2 a s ih =>
    rw [ih]
    cases s with
    | nil => simp [outlineFrom, spell]
    | cons x s => simp [outlineFrom, spell]
  | case3 s ih =>
    rw [ih]
    simp [outlineFrom]
  | case4 s hnext ih =>
    rw [ih]
    cases s with
    | nil => simp [outlineFrom]
    | cons x s =>
      cases x with
      | none => exact absurd rfl (hnext s)
      | some a => simp [outlineFrom, spell]

/-- A text that begins with a letter. -/
theorem spell_outline_some (a : α) (s : List (Option α)) :
    (outlineFrom false (some a :: s)).flatMap (spell sep) = joined sep (outline (some a :: s)) := rfl

theorem collapse_trimBreaks (s : List (Option α)) : collapse sep (trimBreaks s) = joined sep (outline s) := by
  rw [collapse_eq, getLast_trimBreaks, if_neg Bool.false_ne_true, List.append_nil, ← outline_trimBreaks s]
  cases htrim : trimBreaks s with
  | nil => rfl
  | cons x rest =>
    cases x with
    | some a => exact spell_outline_some a rest
    | none => exact absurd htrim (head_trimBreaks s rest)

theorem getLast_spell (l : List (α × Bool)) : (l.flatMap (spell sep)).getLast? = l.getLast?.map Prod.fst := by
  induction l using List.reverseRecOn with
  | nil => rfl
  | append_singleton l x ih =>
    obtain ⟨a, b⟩ := x
    rw [List.flatMap_append, List.getLast?_append, List.getLast?_concat]
    cases b <;> simp [spell]

theorem mem_outlineFrom {x : α × Bool} (h : x ∈ outlineFrom b s) : some x.1 ∈ s := by
  induction s generalizing b with
  | nil => cases h
  | cons y s ih =>
    cases y with
    | none => exact List.mem_cons_of_mem _ (ih h)
    | some a =>
      rcases List.mem_cons.mp h with rfl | h
      · exact List.mem_cons_self
      · exact List.mem_cons_of_mem _ (ih h)

/-- The first letter begins a word. -/
theorem outline_head {x : α × Bool} {l : List (α × Bool)} (h : outline s = x :: l) : x.2 = true := by
  unfold outline at h
  induction s with
  | nil => cases h
  | cons y s ih =>
    cases y with
    | none => exact ih h
    | some a =>
      cases h
      rfl

/-- Where no letter is the separator, the words determine the outline. -/
theorem spell_inj {l l' : List (α × Bool)} (hl : ∀ x ∈ l, x.1 ≠ sep) (hl' : ∀ x ∈ l', x.1 ≠ sep)
    (h : l.flatMap (spell sep) = l'.flatMap (spell sep)) : l = l' := by
  induction l generalizing l' with
  | nil =>
    cases l' with
    | nil => rfl
    | cons x l' =>
      obtain ⟨a, b⟩ := x
      cases b <;> cases h
  | cons x l ih =>
    obtain ⟨a, b⟩ := x
    have hrest : ∀ x ∈ l, x.1 ≠ sep := fun x hx => hl x (List.mem_cons_of_mem _ hx)
    cases l' with
    | nil => cases b <;> cases h
    | cons x' l' =>
      obtain ⟨a', b'⟩ := x'
      have hrest' : ∀ x ∈ l', x.1 ≠ sep := fun x hx => hl' x (List.mem_cons_of_mem _ hx)
      rw [List.flatMap_cons, List.flatMap_cons] at h
      cases b with
      | true =>
        cases b' with
        | true =>
          simp only [spell, List.cons_append, List.nil_append, List.cons.injEq, true_and] at h
          rw [h.1, ih hrest hrest' h.2]
        | false =>
          simp only [spell, List.cons_append, List.nil_append, List.cons.injEq] at h
          exact absurd h.1.symm (hl' (a', false) List.mem_cons_self)
      | false =>
        cases b' with
        | true =>
          simp only [spell, List.cons_append, List.nil_append, List.cons.injEq] at h
          exact absurd h.1 (hl (a, false) List.mem_cons_self)
        | false =>
          simp only [spell, List.cons_append, List.nil_append, List.cons.injEq] at h
          rw [h.1, ih hrest hrest' h.2]

theorem letters_ne (hs : some sep ∉ s) : ∀ x ∈ outlineFrom b s, x.1 ≠ sep := by
  rintro x hx rfl
  exact hs (mem_outlineFrom hx)

theorem joined_cons {x : α × Bool} {l : List (α × Bool)} (h : outline s = x :: l) :
    (outline s).flatMap (spell sep) = sep :: joined sep (outline s) := by
  obtain ⟨a, b⟩ := x
  obtain rfl : b = true := outline_head h
  rw [h]
  rfl

theorem joined_eq_nil : joined sep (outline s) = [] ↔ outline s = [] := by
  constructor
  · intro hnil
    cases houtline : outline s with
    | nil => rfl
    | cons x l =>
      have hx := outline_head houtline
      obtain ⟨a, b⟩ := x
      obtain rfl : b = true := hx
      rw [houtline] at hnil
      cases hnil
  · intro hnil
    rw [hnil]
    rfl

theorem joined_inj (hs : some sep ∉ s) (ht : some sep ∉ t) (h : joined sep (outline s) = joined sep (outline t)) :
    outline s = outline t := by
  cases hleft : outline s with
  | nil =>
    rw [hleft] at h
    exact (joined_eq_nil.mp h.symm).symm
  | cons x l =>
    cases hright : outline t with
    | nil =>
      rw [hright] at h
      rw [← hleft]
      exact joined_eq_nil.mp h
    | cons y l' =>
      rw [← hleft, ← hright]
      refine spell_inj (letters_ne hs) (letters_ne ht) ?_
      rw [joined_cons hleft, joined_cons hright, h]

section Strip

variable [DecidableEq α]

/-- One separator at each end is taken off. -/
def strip (sep : α) (l : List α) : List α :=
  let l := if l.head? = some sep then l.tail else l
  if l.getLast? = some sep then l.dropLast else l

theorem strip_collapse (hs : some sep ∉ s) : strip sep (collapse sep s) = joined sep (outline s) := by
  have hend : ∀ (w : List α) (trailing : Bool), w.getLast? ≠ some sep →
      (if (w ++ if trailing then [sep] else []).getLast? = some sep then (w ++ if trailing then [sep] else []).dropLast
        else w ++ if trailing then [sep] else []) = w := by
    intro w trailing hw
    cases trailing with
    | true => simp
    | false => simp [hw]
  have hlast : ∀ b, ((outlineFrom b s).flatMap (spell sep)).getLast? ≠ some sep := by
    intro b heq
    rw [getLast_spell] at heq
    obtain ⟨x, hx, hsep⟩ := Option.map_eq_some_iff.mp heq
    exact letters_ne hs x (List.mem_of_getLast? hx) hsep
  rw [collapse_eq]
  generalize s.getLast?.any Option.isNone = trailing
  unfold strip
  dsimp only
  cases s with
  | nil => cases trailing <;> simp [outlineFrom, outline, joined]
  | cons x rest =>
    cases x with
    | some a =>
      have hfirst : ((outlineFrom false (some a :: rest)).flatMap (spell sep) ++ if trailing then [sep] else []).head? ≠
          some sep := by
        intro heq
        exact hs (Option.some.inj heq ▸ List.mem_cons_self)
      rw [if_neg hfirst, hend _ _ (hlast false)]
      rfl
    | none =>
      have hsame : outlineFrom false (none :: rest) = outline (none :: rest) := rfl
      rw [hsame]
      cases houtline : outline (none :: rest) with
      | nil => cases trailing <;> simp [joined]
      | cons x l =>
        have hjoined : (joined sep (outline (none :: rest))).getLast? ≠ some sep := by
          intro heq
          have hcontra := hlast false
          rw [hsame, joined_cons houtline, List.getLast?_cons, heq] at hcontra
          exact hcontra rfl
        rw [← houtline, joined_cons houtline, List.cons_append, List.head?_cons, if_pos rfl, List.tail_cons,
          hend _ _ hjoined]

end Strip

end Words
