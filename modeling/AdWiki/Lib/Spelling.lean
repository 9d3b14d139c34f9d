import AdWiki.Lib.Words

/-!
# Two ways to spell a text

Each character of a text stands for a list of letters and breaks. Two ways to spell give the same outline where every
character stands for the same words and two characters that follow one another with no letter between them are parted by a
break in both or in neither.

* `outline_of_alike`: such a text has one outline.
* `alike_of_outline`: the converse for texts in which one way never has more letters than the other.
-/

namespace Words

variable {α β : Type*} {b b' : Bool} {s t : List (Option α)} {f g : β → List (Option α)}
  {text front middle back : List β} {c d : β}

/-! ## Reading on -/

/-- Whether a word begins behind the text, where one may begin at its start. -/
def breakAfter : Bool → List (Option α) → Bool
  | b, [] => b
  | _, x :: s => breakAfter x.isNone s

/-- A break comes first. -/
def startsBreak (s : List (Option α)) : Bool := s.head?.any Option.isNone

/-- A break comes last. -/
def endsBreak (s : List (Option α)) : Bool := breakAfter false s

theorem breakAfter_append (b : Bool) (s t : List (Option α)) : breakAfter b (s ++ t) = breakAfter (breakAfter b s) t := by
  induction s generalizing b with
  | nil => rfl
  | cons x s ih => exact ih x.isNone

theorem outlineFrom_append (b : Bool) (s t : List (Option α)) :
    outlineFrom b (s ++ t) = outlineFrom b s ++ outlineFrom (breakAfter b s) t := by
  induction s generalizing b with
  | nil => rfl
  | cons x s ih =>
    cases x with
    | none => exact ih true
    | some a => exact congrArg ((a, b) :: ·) (ih false)

theorem length_outlineFrom (b : Bool) (s : List (Option α)) : (outlineFrom b s).length = (outline s).length := by
  cases s with
  | nil => rfl
  | cons x s =>
    cases x with
    | none => rfl
    | some a => rfl

theorem outlineFrom_eq_nil : outlineFrom b s = [] ↔ outline s = [] := by
  rw [← List.length_eq_zero_iff, length_outlineFrom, List.length_eq_zero_iff]

/-- Where a word begins matters for the first letter only. -/
theorem outlineFrom_eq_iff : outlineFrom b s = outlineFrom b' t ↔
    outline s = outline t ∧ (outline t ≠ [] → (b || startsBreak s) = (b' || startsBreak t)) := by
  have hform : ∀ (b : Bool) (s : List (Option α)), outlineFrom b s = [] ∧ outline s = [] ∨
      ∃ a l, outlineFrom b s = (a, b || startsBreak s) :: l ∧ outline s = (a, true) :: l := by
    intro b s
    cases s with
    | nil => exact .inl ⟨rfl, rfl⟩
    | cons x s =>
      cases x with
      | some a => exact .inr ⟨a, outlineFrom false s, by simp [outlineFrom, startsBreak], rfl⟩
      | none =>
        have hsame : outlineFrom b (none :: s) = outline s := rfl
        rw [hsame, show outline (none :: s) = outline s from rfl]
        cases houtline : outline s with
        | nil => exact .inl ⟨rfl, rfl⟩
        | cons y l =>
          obtain ⟨a, first⟩ := y
          obtain rfl : first = true := outline_head houtline
          exact .inr ⟨a, l, by simp [startsBreak], rfl⟩
  rcases hform b s with ⟨hs, hs'⟩ | ⟨a, l, hs, hs'⟩
  · rcases hform b' t with ⟨ht, ht'⟩ | ⟨a', l', ht, ht'⟩
    · rw [hs, ht, hs', ht']
      simp
    · rw [hs, ht, hs', ht']
      simp
  · rcases hform b' t with ⟨ht, ht'⟩ | ⟨a', l', ht, ht'⟩
    · rw [hs, ht, hs', ht']
      simp
    · rw [hs, ht, hs', ht']
      simp only [List.cons.injEq, Prod.mk.injEq, and_true, ne_eq, reduceCtorEq, not_false_eq_true, true_imp_iff]
      tauto

/-! ## Character by character -/

/-- Each character adds the same to both outlines. -/
def AddsSame (f g : β → List (Option α)) (b b' : Bool) (text : List β) : Prop :=
  ∀ front c back, text = front ++ c :: back →
  outlineFrom (breakAfter b (front.flatMap f)) (f c) = outlineFrom (breakAfter b' (front.flatMap g)) (g c)

theorem addsSame_cons : AddsSame f g b b' (c :: text) ↔
    outlineFrom b (f c) = outlineFrom b' (g c) ∧ AddsSame f g (breakAfter b (f c)) (breakAfter b' (g c)) text := by
  constructor
  · intro h
    refine ⟨h [] c text rfl, fun front d back heq => ?_⟩
    have hnext := h (c :: front) d back (by rw [heq, List.cons_append])
    rwa [List.flatMap_cons, List.flatMap_cons, breakAfter_append, breakAfter_append] at hnext
  · rintro ⟨hhead, htail⟩ front d back heq
    cases front with
    | nil =>
      obtain ⟨rfl, rfl⟩ := List.cons.inj heq
      exact hhead
    | cons e front =>
      obtain ⟨rfl, hrest⟩ := List.cons.inj heq
      rw [List.flatMap_cons, List.flatMap_cons, breakAfter_append, breakAfter_append]
      exact htail front d back hrest

theorem outlineFrom_of_addsSame (h : AddsSame f g b b' text) :
    outlineFrom b (text.flatMap f) = outlineFrom b' (text.flatMap g) := by
  induction text generalizing b b' with
  | nil => rfl
  | cons c text ih =>
    obtain ⟨hhead, htail⟩ := addsSame_cons.mp h
    rw [List.flatMap_cons, List.flatMap_cons, outlineFrom_append, outlineFrom_append, hhead, ih htail]

theorem length_flatMap_le (hlength : ∀ c ∈ text, (outline (f c)).length ≤ (outline (g c)).length) (b b' : Bool) :
    (outlineFrom b (text.flatMap f)).length ≤ (outlineFrom b' (text.flatMap g)).length := by
  induction text generalizing b b' with
  | nil => exact Nat.le_refl 0
  | cons c text ih =>
    have hhead := hlength c List.mem_cons_self
    have htail := ih (fun d hd => hlength d (List.mem_cons_of_mem c hd)) (breakAfter b (f c)) (breakAfter b' (g c))
    rw [List.flatMap_cons, List.flatMap_cons, outlineFrom_append, outlineFrom_append, List.length_append,
      List.length_append, length_outlineFrom b (f c), length_outlineFrom b' (g c)]
    exact Nat.add_le_add hhead htail

/-- Letters cannot pass from one character to another where one way never has more of them. -/
theorem addsSame_of_outlineFrom (hlength : ∀ c ∈ text, (outline (f c)).length ≤ (outline (g c)).length)
    (h : outlineFrom b (text.flatMap f) = outlineFrom b' (text.flatMap g)) : AddsSame f g b b' text := by
  induction text generalizing b b' with
  | nil =>
    intro front c back heq
    cases front <;> cases heq
  | cons c text ih =>
    have hrest : ∀ d ∈ text, (outline (f d)).length ≤ (outline (g d)).length :=
      fun d hd => hlength d (List.mem_cons_of_mem c hd)
    have hhead := hlength c List.mem_cons_self
    have htail := length_flatMap_le hrest (breakAfter b (f c)) (breakAfter b' (g c))
    rw [List.flatMap_cons, List.flatMap_cons, outlineFrom_append, outlineFrom_append] at h
    have htotal := congrArg List.length h
    rw [List.length_append, List.length_append] at htotal
    rw [← length_outlineFrom b, ← length_outlineFrom b' (g c)] at hhead
    obtain ⟨hfirst, hlater⟩ := List.append_inj h (by omega)
    exact addsSame_cons.mpr ⟨hfirst, ih hrest hlater⟩

/-! ## Breaks between characters -/

/-- A break between two characters with no letter between them. -/
def Parted (f : β → List (Option α)) (c : β) (middle : List β) (d : β) : Prop :=
  endsBreak (f c) = true ∨ (∃ e ∈ middle, f e ≠ []) ∨ startsBreak (f d) = true

/-- Every character stands for the same words, and neighbouring ones with letters are parted in both ways or in neither.
-/
structure Alike (f g : β → List (Option α)) (text : List β) : Prop where
  words : ∀ c ∈ text, outline (f c) = outline (g c)
  parted : ∀ front c middle d back, text = front ++ c :: middle ++ d :: back → outline (g c) ≠ [] →
    (∀ e ∈ middle, outline (g e) = []) →
    outline (g d) ≠ [] → (Parted f c middle d ↔ Parted g c middle d)

theorem breakAfter_none (h : outline s = []) (b : Bool) : breakAfter b s = (b || !s.isEmpty) := by
  induction s generalizing b with
  | nil => simp [breakAfter]
  | cons x s ih =>
    cases x with
    | some a => cases h
    | none =>
      rw [breakAfter, ih h]
      simp

theorem outline_flatMap_nil : outline (middle.flatMap f) = [] ↔ ∀ e ∈ middle, outline (f e) = [] := by
  induction middle with
  | nil => simp [outline, outlineFrom]
  | cons e middle ih =>
    rw [List.flatMap_cons, outline, outlineFrom_append, List.append_eq_nil_iff, outlineFrom_eq_nil,
      outlineFrom_eq_nil, ih, List.forall_mem_cons]

/-- Two runs of breaks may change places. -/
theorem outline_swap (hs : outline s = []) (ht : outline t = []) (front back : List (Option α)) :
    outline (front ++ (t ++ s) ++ back) = outline (front ++ (s ++ t) ++ back) := by
  have hnone : ∀ {s t : List (Option α)}, outline s = [] → outline t = [] → outline (s ++ t) = [] := by
    intro s t hs ht
    rw [outline, outlineFrom_append, List.append_eq_nil_iff, outlineFrom_eq_nil, outlineFrom_eq_nil]
    exact ⟨hs, ht⟩
  have hread : ∀ {s : List (Option α)}, outline s = [] → outline (front ++ s ++ back) =
      outline front ++ outlineFrom (breakAfter true front || !s.isEmpty) back := by
    intro s hs
    rw [outline, List.append_assoc, outlineFrom_append, outlineFrom_append, outlineFrom_eq_nil.mpr hs, List.nil_append,
      breakAfter_none hs]
    rfl
  have hempty : (t ++ s).isEmpty = (s ++ t).isEmpty := by cases s <;> cases t <;> rfl
  rw [hread (hnone ht hs), hread (hnone hs ht), hempty]

theorem isEmpty_flatMap : (!(middle.flatMap f).isEmpty) = true ↔ ∃ e ∈ middle, f e ≠ [] := by
  simp [List.flatMap_eq_nil_iff]

theorem breakAfter_letters (h : outline s ≠ []) (b : Bool) : breakAfter b s = endsBreak s := by
  cases s with
  | nil => exact absurd rfl h
  | cons x s => rfl

/-- Whether a word begins at a character, by the last one before it that has letters. -/
theorem begins_iff (hc : outline (f c) ≠ []) (hmiddle : ∀ e ∈ middle, outline (f e) = []) :
    (breakAfter true ((front ++ c :: middle).flatMap f) || startsBreak (f d)) = true ↔ Parted f c middle d := by
  rw [List.flatMap_append, List.flatMap_cons, breakAfter_append, breakAfter_append,
    breakAfter_none (outline_flatMap_nil.mpr hmiddle), breakAfter_letters hc, Bool.or_eq_true, Bool.or_eq_true,
    isEmpty_flatMap, or_assoc]
  rfl

theorem begins_first (h : ∀ e ∈ front, outline (f e) = []) : breakAfter true (front.flatMap f) = true := by
  rw [breakAfter_none (outline_flatMap_nil.mpr h), Bool.true_or]

/-- The last character of a text that has letters. -/
theorem last_letters (g : β → List (Option α)) (front : List β) : (∀ e ∈ front, outline (g e) = []) ∨
    ∃ before c middle, front = before ++ c :: middle ∧ outline (g c) ≠ [] ∧ ∀ e ∈ middle, outline (g e) = [] := by
  induction front using List.reverseRecOn with
  | nil => exact .inl fun e he => absurd he List.not_mem_nil
  | append_singleton front d ih =>
    by_cases hd : outline (g d) = []
    · rcases ih with hnone | ⟨before, c, middle, rfl, hc, hmiddle⟩
      · refine .inl fun e he => ?_
        rcases List.mem_append.mp he with he | he
        · exact hnone e he
        · rw [List.mem_singleton.mp he, hd]
      · refine .inr ⟨before, c, middle ++ [d], by simp, hc, fun e he => ?_⟩
        rcases List.mem_append.mp he with he | he
        · exact hmiddle e he
        · rw [List.mem_singleton.mp he, hd]
    · exact .inr ⟨front, d, [], rfl, hd, fun e he => absurd he List.not_mem_nil⟩

theorem alike_iff : Alike f g text ↔ AddsSame f g true true text := by
  constructor
  · rintro ⟨hwords, hparted⟩ front d back rfl
    have hsame : ∀ e ∈ front, outline (f e) = outline (g e) := fun e he => hwords e (List.mem_append_left _ he)
    rw [outlineFrom_eq_iff]
    refine ⟨hwords d (List.mem_append_right _ List.mem_cons_self), fun hd => ?_⟩
    rcases last_letters g front with hnone | ⟨before, c, middle, rfl, hc, hmiddle⟩
    · rw [begins_first hnone, begins_first fun e he => (hsame e he).trans (hnone e he), Bool.true_or, Bool.true_or]
    · have hc' : outline (f c) ≠ [] := by
        rw [hsame c (by simp)]
        exact hc
      have hmiddle' : ∀ e ∈ middle, outline (f e) = [] := fun e he => (hsame e (by simp [he])).trans (hmiddle e he)
      rw [Bool.eq_iff_iff, begins_iff hc' hmiddle', begins_iff hc hmiddle]
      exact hparted before c middle d back rfl hc hmiddle hd
  · intro h
    have hwords : ∀ c ∈ text, outline (f c) = outline (g c) := by
      intro c hc
      obtain ⟨front, back, rfl⟩ := List.append_of_mem hc
      exact (outlineFrom_eq_iff.mp (h front c back rfl)).1
    refine ⟨hwords, ?_⟩
    rintro front c middle d back rfl hc hmiddle hd
    have hc' : outline (f c) ≠ [] := by
      rw [hwords c (by simp)]
      exact hc
    have hmiddle' : ∀ e ∈ middle, outline (f e) = [] := fun e he => (hwords e (by simp [he])).trans (hmiddle e he)
    have hbegins := (outlineFrom_eq_iff.mp (h (front ++ c :: middle) d back rfl)).2 hd
    rwa [Bool.eq_iff_iff, begins_iff hc' hmiddle', begins_iff hc hmiddle] at hbegins

theorem outline_of_alike (h : Alike f g text) : outline (text.flatMap f) = outline (text.flatMap g) :=
  outlineFrom_of_addsSame (alike_iff.mp h)

/-- One of the two ways has at least as many letters for every character. -/
def Comparable (f g : β → List (Option α)) (text : List β) : Prop :=
  (∀ c ∈ text, (outline (f c)).length ≤ (outline (g c)).length) ∨
    ∀ c ∈ text, (outline (g c)).length ≤ (outline (f c)).length

theorem alike_of_outline (hcomparable : Comparable f g text) (h : outline (text.flatMap f) = outline (text.flatMap g)) :
    Alike f g text := by
  rw [alike_iff]
  rcases hcomparable with hlength | hlength
  · exact addsSame_of_outlineFrom hlength h
  · have hback := addsSame_of_outlineFrom hlength h.symm
    exact fun front c back heq => (hback front c back heq).symm

end Words
