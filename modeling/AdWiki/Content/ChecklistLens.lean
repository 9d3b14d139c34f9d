import AdWiki.Content.MarkdownTasks
import AdWiki.Content.TaskItemTags

/-!
# The checklist of a content

The items of a content are its task items in HTML, or else its task lines in Markdown. Toggling is a lens on the list of
their states, except where an index behind the last task item in HTML is one of a task line.

* `pieces_bracket`: the mark of a task line is no part of what makes a tag a task item.
* `lensAt_iff`: the indices at which toggling is a lens.
-/

namespace AdWiki.Content

open Js Checklist

variable {content result before after tag a b : List Char} {ps : List Piece} {mark mark' : Char} {i n : Nat}
  {checked : Bool}

/-! ## Marks of task lines -/

def bracket (mark : Char) : List Char := ['[', mark, ']']

def bracketTexts : List (List Char) := [bracket ' ', bracket 'x']

theorem separate_bracket : Separate taskItemTexts bracketTexts where
  apart := by
    unfold Apart
    decide +kernel
  inside := by decide +kernel
  closed := by decide +kernel

theorem lower_bracket (h : mark ∈ " xX".toList) : lower (bracket mark) ∈ bracketTexts := by
  have hall : (" xX".toList.all fun mark => bracketTexts.contains (lower (bracket mark))) = true := by decide +kernel
  exact List.contains_iff_mem.mp (List.all_eq_true.mp hall mark h)

theorem startsLi_cons (x l i c : Char) (rest : List Char) :
    startsLi (x :: l :: i :: c :: rest) = (x == '<' && (l.toLower == 'l' && i.toLower == 'i' && !isWord c)) := by
  by_cases hx : x = '<'
  · subst hx
    rfl
  · simp [startsLi, hx]

/-- No mark of a task line stands at the beginning of a tag. -/
theorem startsLi_bracket (mark mark' : Char) (a b : List Char) :
    startsLi (a ++ bracket mark ++ b) = startsLi (a ++ bracket mark' ++ b) := by
  have hl : ('['.toLower == 'l') = false := by decide
  have hi : ('['.toLower == 'i') = false := by decide
  match a with
  | [] => rfl
  | [x] =>
    show startsLi (x :: '[' :: mark :: ']' :: b) = startsLi (x :: '[' :: mark' :: ']' :: b)
    rw [startsLi_cons, startsLi_cons, hl, Bool.false_and, Bool.false_and, Bool.false_and, Bool.false_and]
  | [x, y] =>
    show startsLi (x :: y :: '[' :: mark :: ']' :: b) = startsLi (x :: y :: '[' :: mark' :: ']' :: b)
    rw [startsLi_cons, startsLi_cons, hi, Bool.and_false, Bool.false_and, Bool.false_and]
  | [x, y, z] =>
    show startsLi (x :: y :: z :: '[' :: mark :: ']' :: b) = startsLi (x :: y :: z :: '[' :: mark' :: ']' :: b)
    rw [startsLi_cons, startsLi_cons]
  | x :: y :: z :: w :: rest =>
    show startsLi (x :: y :: z :: w :: (rest ++ bracket mark ++ b)) =
      startsLi (x :: y :: z :: w :: (rest ++ bracket mark' ++ b))
    rw [startsLi_cons, startsLi_cons]

theorem findIdx?_bracket_mark (h : mark ∈ " xX".toList) (a b : List Char) : (a ++ bracket mark ++ b).findIdx? (· == '>') =
    (a.findIdx? (· == '>')).or ((b.findIdx? (· == '>')).map (· + (a.length + 3))) := by
  have hall : (" xX".toList.all fun mark => ((bracket mark).findIdx? (· == '>')).isNone) = true := by decide
  have hnone := Option.isNone_iff_eq_none.mp (List.all_eq_true.mp hall mark h)
  rw [List.findIdx?_append, List.findIdx?_append, hnone]
  simp [bracket]

/-- A tag ends before the mark, or it contains it. -/
theorem matchLi_bracket (h : mark ∈ " xX".toList) (h' : mark' ∈ " xX".toList) (a b : List Char) :
    matchLi (a ++ bracket mark' ++ b) = matchLi (a ++ bracket mark ++ b) ∧
      ∀ n, matchLi (a ++ bracket mark ++ b) = some n → n ≤ a.length ∨ ∃ j, n = a.length + 3 + j := by
  unfold matchLi
  rw [startsLi_bracket mark' mark, findIdx?_bracket_mark h', findIdx?_bracket_mark h]
  refine ⟨rfl, fun n hn => ?_⟩
  split at hn
  · obtain ⟨k, hk, rfl⟩ := Option.map_eq_some_iff.mp hn
    rcases Option.or_eq_some_iff.mp hk with hk | ⟨-, hk⟩
    · obtain ⟨hlt, -⟩ := List.findIdx?_eq_some_iff_getElem.mp hk
      exact .inl hlt
    · obtain ⟨j, -, rfl⟩ := Option.map_eq_some_iff.mp hk
      exact .inr ⟨j + 1, by omega⟩
  · cases hn

/-- The content has a task item in HTML. -/
def hasTaskItem (ps : List Piece) : Bool := ps.any fun
  | .tag tag => isTaskItem tag
  | .char _ => false

/-- Writing the mark of a task line makes no tag a task item. -/
theorem hasTaskItem_bracket (h : mark ∈ " xX".toList) (h' : mark' ∈ " xX".toList) (a b : List Char) :
    hasTaskItem (pieces 0 (a ++ bracket mark' ++ b)) = hasTaskItem (pieces 0 (a ++ bracket mark ++ b)) := by
  have hnone :
      ∀ (c : Char) (text : List Char), c ≠ '<' → hasTaskItem (pieces 0 (c :: text)) = hasTaskItem (pieces 0 text) := by
    intro c text hc
    have hmatch : matchLi (c :: text) = none := by
      unfold matchLi
      rw [if_neg]
      rw [startsLi]
      · exact Bool.false_ne_true
      · intro l i c' tail heq
        exact absurd (List.cons.inj heq).1 hc
    rw [pieces, hmatch]
    rfl
  induction hlength : a.length using Nat.strong_induction_on generalizing a with
  | _ length ih =>
    subst hlength
    cases a with
    | nil =>
      have hall : ∀ mark ∈ " xX".toList, mark ≠ '<' := by
        rintro mark hmark rfl
        exact absurd hmark (by decide)
      have hskip :
          ∀ mark ∈ " xX".toList, hasTaskItem (pieces 0 ('[' :: mark :: ']' :: b)) = hasTaskItem (pieces 0 b) := by
        intro mark hmark
        rw [hnone '[' _ (by decide), hnone mark _ (hall mark hmark), hnone ']' _ (by decide)]
      show hasTaskItem (pieces 0 ('[' :: mark' :: ']' :: b)) = hasTaskItem (pieces 0 ('[' :: mark :: ']' :: b))
      rw [hskip mark' h', hskip mark h]
    | cons c a =>
      obtain ⟨hsame, hends⟩ := matchLi_bracket h h' (c :: a) b
      rw [List.cons_append, List.cons_append, List.cons_append, List.cons_append] at *
      cases hmatch : matchLi (c :: (a ++ bracket mark ++ b)) with
      | none =>
        rw [hmatch] at hsame
        rw [pieces, pieces, hsame, hmatch]
        exact ih a.length (Nat.lt_succ_self _) a rfl
      | some n =>
        rw [hmatch] at hsame
        have hcons : ∀ tag rest, hasTaskItem (.tag tag :: rest) = (isTaskItem tag || hasTaskItem rest) := fun _ _ => rfl
        have hpos := (isLi_of_matchLi hmatch).2
        rw [pieces, pieces, hsame, hmatch]
        dsimp only
        rw [hcons, hcons, pieces_skip, pieces_skip (n - 1)]
        rcases hends n hmatch with hshort | ⟨j, rfl⟩
        · -- the mark is behind the tag
          have hle : n - 1 ≤ a.length := by
            rw [List.length_cons] at hshort
            omega
          have htake : ∀ mark, (c :: (a ++ bracket mark ++ b)).take n = (c :: a).take n := by
            intro mark
            rw [List.append_assoc, ← List.cons_append, List.take_append_of_le_length hshort]
          have hdrop : ∀ mark, (a ++ bracket mark ++ b).drop (n - 1) = a.drop (n - 1) ++ bracket mark ++ b := by
            intro mark
            rw [List.append_assoc, List.drop_append_of_le_length hle, List.append_assoc]
          rw [htake, htake, hdrop, hdrop,
            ih (a.drop (n - 1)).length (by rw [List.length_drop, List.length_cons]; omega) _ rfl]
        · -- the mark is in the tag
          have hlength : ∀ mark, (c :: (a ++ bracket mark)).length = (c :: a).length + 3 := by
            intro mark
            simp [bracket]
          have htake : ∀ mark, (c :: (a ++ bracket mark ++ b)).take ((c :: a).length + 3 + j) = c :: a ++ bracket mark ++
              b.take j := by
            intro mark
            rw [← hlength mark]
            exact List.take_length_add_append j
          have hdrop : ∀ mark, (a ++ bracket mark ++ b).drop ((c :: a).length + 3 + j - 1) = b.drop j := by
            intro mark
            have hcount : (c :: a).length + 3 + j - 1 = (a ++ bracket mark).length + j := by
              rw [List.length_append, List.length_cons]
              simp [bracket]
            rw [hcount, List.drop_length_add_append]
          rw [htake, htake, hdrop, hdrop, isTaskItem_mark separate_bracket (lower_bracket h) (lower_bracket h')]

/-! ## Edits -/

/-- What an edit of the item does to the text: one marker is written anew. -/
def Edits (checked : Bool) (content result : List Char) : Prop := ∃ before after,
  (∃ marker, lower marker ∈ checkedTexts ∧ content = before ++ marker ++ after ∧
    result = before ++ checkedText checked ++ after) ∨
  ∃ mark ∈ " xX".toList, content = before ++ bracket mark ++ after ∧
    result = before ++ bracket (taskMark checked) ++ after

theorem markdown_bracket (h : markdownFormat.toggle content i checked = some result) :
    ∃ before after, ∃ mark ∈ " xX".toList,
    content = before ++ bracket mark ++ after ∧ result = before ++ bracket (taskMark checked) ++ after := by
  obtain ⟨k, t, -, ht, rfl⟩ := Format.toggle_eq_some h
  obtain ⟨line, start, mark, text, hk, htask, -⟩ := markdownMarks_modify ht
  obtain ⟨⟨indent, bullet, gap, -, -, -, -, rfl⟩, hmark, rfl⟩ := matchTask_eq_some.mp htask
  obtain ⟨hput, -⟩ := matchTask_putTask htask checked
  change (splitLines content)[k]? = some _ at hk
  obtain ⟨before, after, hcontent, hset⟩ := flatMap_set id hk
  refine ⟨before ++ (indent ++ bullet :: gap), text ++ after, mark, hmark, ?_, ?_⟩
  · have hjoin := (parts_splitLines content).2
    rw [← List.flatMap_id, hcontent] at hjoin
    rw [← hjoin]
    simp [bracket]
  · show ((splitLines content).modify k (putTask checked)).flatten = _
    rw [← List.flatMap_id, modify_eq_set hk, hset, hput]
    simp [bracket]

theorem tiptap_edits (h : tiptapFormat.toggle content i checked = some result) : Edits checked content result := by
  obtain ⟨k, t, -, ht, rfl⟩ := Format.toggle_eq_some h
  obtain ⟨p, hk, hp⟩ := map_getElem? ht
  obtain ⟨tag, u, m, v, rfl, hitem, hfound, rfl, hm, -⟩ := pieceMark_eq_some hp
  obtain ⟨hput, -⟩ := putChecked_eq hitem hfound checked
  change (pieces 0 content)[k]? = some _ at hk
  obtain ⟨before, after, hcontent, hset⟩ := flatMap_set Piece.text hk
  refine ⟨before ++ u, v ++ after, .inl ⟨m, hm, ?_, ?_⟩⟩
  · have hjoin : join (pieces 0 content) = content := (scanned_pieces 0 content).2
    rw [join, hcontent] at hjoin
    rw [← hjoin]
    simp [Piece.text]
  · show ((pieces 0 content).modify k (putChecked checked)).flatMap Piece.text = _
    rw [modify_eq_set hk, hset, hput]
    simp [Piece.text]

/-! ## The lens -/

/-- The states of the task items in HTML if there are any, and else of the task lines. -/
def checklist (content : List Char) : List Bool :=
  if hasTaskItem (pieces 0 content) then tiptapFormat.items content else markdownFormat.items content

/-- Toggling the item with the index is a lens on the checklist. -/
structure LensAt (content : List Char) (i : Nat) : Prop where
  missing : ∀ a, toggleCheckboxInContent content i a = none ↔ (checklist content).length ≤ i
  written : ∀ a result, toggleCheckboxInContent content i a = some result → checklist result = (checklist content).set i a
  edits : ∀ a result, toggleCheckboxInContent content i a = some result → Edits a content result
  last : ∀ a b result, toggleCheckboxInContent content i a = some result →
    toggleCheckboxInContent result i b = toggleCheckboxInContent content i b
  comm : ∀ j a b, i ≠ j → i < (checklist content).length → j < (checklist content).length →
    (toggleCheckboxInContent content i a).bind (toggleCheckboxInContent · j b) =
      (toggleCheckboxInContent content j b).bind (toggleCheckboxInContent · i a)

theorem mem_tiptap_items {t : Bool} : t ∈ tiptapFormat.items content ↔ ∃ p ∈ pieces 0 content, pieceMark p = some t := by
  show t ∈ ((pieces 0 content).map pieceMark).reduceOption ↔ _
  rw [List.reduceOption_mem_iff, List.mem_map]

theorem tiptap_items_eq_nil (h : hasTaskItem (pieces 0 content) = false) : tiptapFormat.items content = [] := by
  refine List.eq_nil_iff_forall_not_mem.mpr fun t ht => ?_
  obtain ⟨p, hp, hmark⟩ := mem_tiptap_items.mp ht
  obtain ⟨tag, u, m, v, rfl, hitem, -⟩ := pieceMark_eq_some hmark
  have hnot := List.any_eq_false.mp h (.tag tag) hp
  exact hnot hitem

theorem hasTaskItem_of_items (h : tiptapFormat.items content ≠ []) : hasTaskItem (pieces 0 content) = true := by
  by_contra hnone
  rw [Bool.not_eq_true] at hnone
  exact h (tiptap_items_eq_nil hnone)

theorem hasStates_of_none (h : hasTaskItem (pieces 0 content) = false) : HasStates (pieces 0 content) := by
  intro tag htag hitem
  exact absurd hitem (List.any_eq_false.mp h (.tag tag) htag)

/-- A content without task items in HTML is one of task lines. -/
theorem toggle_markdown (h : hasTaskItem (pieces 0 content) = false) (i : Nat) (checked : Bool) :
    toggleCheckboxInContent content i checked = markdownFormat.toggle content i checked := by
  have hnone : tiptapFormat.toggle content i checked = none := by
    rw [Format.toggle_eq_none, tiptap_items_eq_nil h]
    exact Nat.zero_le i
  unfold toggleCheckboxInContent
  rw [toggleTiptapTaskItem_eq (hasStates_of_none h), hnone, toggleMarkdownTaskItem_eq]

theorem toggle_tiptap (hstates : HasStates (pieces 0 content)) (h : i < (tiptapFormat.items content).length)
    (checked : Bool) :
    toggleCheckboxInContent content i checked = tiptapFormat.toggle content i checked := by
  unfold toggleCheckboxInContent
  rw [toggleTiptapTaskItem_eq hstates]
  cases htoggle : tiptapFormat.toggle content i checked with
  | none => exact absurd (Format.toggle_eq_none.mp htoggle) (by omega)
  | some result => rfl

/-- Behind the task items in HTML, the task lines are counted from the start. -/
theorem toggle_behind (hstates : HasStates (pieces 0 content)) (h : (tiptapFormat.items content).length ≤ i)
    (checked : Bool) :
    toggleCheckboxInContent content i checked = markdownFormat.toggle content i checked := by
  unfold toggleCheckboxInContent
  rw [toggleTiptapTaskItem_eq hstates, Format.toggle_eq_none.mpr h, toggleMarkdownTaskItem_eq]

theorem markdown_hasTaskItem (h : markdownFormat.toggle content i checked = some result) :
    hasTaskItem (pieces 0 result) = hasTaskItem (pieces 0 content) := by
  obtain ⟨before, after, mark, hmark, rfl, rfl⟩ := markdown_bracket h
  exact hasTaskItem_bracket hmark (taskMark_mem checked) before after

/-- The task items have states after an edit too. -/
theorem tiptap_hasStates (hstates : HasStates (pieces 0 content))
    (h : tiptapFormat.toggle content i checked = some result) :
    HasStates (pieces 0 result) := by
  obtain ⟨k, t, -, ht, rfl⟩ := Format.toggle_eq_some h
  have hscan := tiptap_lawful.scan_written content k checked t ht
  obtain ⟨p, hk, hp⟩ := map_getElem? ht
  obtain ⟨tag, u, m, v, rfl, hitem, hfound, -⟩ := pieceMark_eq_some hp
  obtain ⟨hput, -, hfound', -⟩ := putChecked_eq hitem hfound checked
  change pieces 0 _ = (pieces 0 content).modify k (putChecked checked) at hscan
  change (pieces 0 content)[k]? = some _ at hk
  rw [hscan, modify_eq_set hk, hput]
  intro tag' htag' hitem'
  rcases List.mem_or_eq_of_mem_set htag' with hmem | heq
  · exact hstates tag' hmem hitem'
  · obtain rfl := Piece.tag.inj heq
    rw [hfound']
    rfl

theorem length_tiptap_items (h : tiptapFormat.toggle content i checked = some result) :
    (tiptapFormat.items result).length = (tiptapFormat.items content).length := by
  rw [Format.items_toggle tiptap_lawful h, List.length_set]

theorem lensAt_markdown (h : hasTaskItem (pieces 0 content) = false) (i : Nat) : LensAt content i := by
  have hcontent : checklist content = markdownFormat.items content := by simp [checklist, h]
  have hresult : ∀ {i a result}, markdownFormat.toggle content i a = some result →
      hasTaskItem (pieces 0 result) = false := by
    intro i a result hresult
    rw [markdown_hasTaskItem hresult, h]
  constructor
  · intro a
    rw [toggle_markdown h, hcontent, Format.toggle_eq_none]
  · intro a result htoggle
    rw [toggle_markdown h] at htoggle
    have hnone := hresult htoggle
    have hchecklist : checklist result = markdownFormat.items result := by simp [checklist, hnone]
    rw [hcontent, hchecklist, Format.items_toggle markdown_lawful htoggle]
  · intro a result htoggle
    rw [toggle_markdown h] at htoggle
    obtain ⟨before, after, mark, hmark, hbefore, hafter⟩ := markdown_bracket htoggle
    exact ⟨before, after, .inr ⟨mark, hmark, hbefore, hafter⟩⟩
  · intro a b result htoggle
    rw [toggle_markdown h] at htoggle
    rw [toggle_markdown (hresult htoggle), toggle_markdown h, Format.toggle_toggle markdown_lawful htoggle]
  · intro j a b hne _ _
    have hbind : ∀ i j a b, (toggleCheckboxInContent content i a).bind (toggleCheckboxInContent · j b) =
        (markdownFormat.toggle content i a).bind (markdownFormat.toggle · j b) := by
      intro i j a b
      rw [toggle_markdown h]
      cases htoggle : markdownFormat.toggle content i a with
      | none => rfl
      | some result => exact toggle_markdown (hresult htoggle) j b
    rw [hbind, hbind, Format.toggle_comm markdown_lawful hne]

theorem lensAt_tiptap (hstates : HasStates (pieces 0 content)) (h : i < (tiptapFormat.items content).length) :
    LensAt content i := by
  have hitems : tiptapFormat.items content ≠ [] := List.ne_nil_of_length_pos (by omega)
  have hcontent : checklist content = tiptapFormat.items content := by simp [checklist, hasTaskItem_of_items hitems]
  have hlater : ∀ {i j a result}, tiptapFormat.toggle content i a = some result →
    j < (tiptapFormat.items content).length →
      ∀ b, toggleCheckboxInContent result j b = tiptapFormat.toggle result j b := by
    intro i j a result htoggle hj
    exact toggle_tiptap (tiptap_hasStates hstates htoggle) (length_tiptap_items htoggle ▸ hj)
  constructor
  · intro a
    rw [toggle_tiptap hstates h, hcontent, Format.toggle_eq_none]
  · intro a result htoggle
    rw [toggle_tiptap hstates h] at htoggle
    have hsome : tiptapFormat.items result ≠ [] := by
      refine List.ne_nil_of_length_pos ?_
      rw [length_tiptap_items htoggle]
      omega
    have hchecklist : checklist result = tiptapFormat.items result := by simp [checklist, hasTaskItem_of_items hsome]
    rw [hcontent, hchecklist, Format.items_toggle tiptap_lawful htoggle]
  · intro a result htoggle
    rw [toggle_tiptap hstates h] at htoggle
    exact tiptap_edits htoggle
  · intro a b result htoggle
    rw [toggle_tiptap hstates h] at htoggle
    rw [hlater htoggle h, toggle_tiptap hstates h, Format.toggle_toggle tiptap_lawful htoggle]
  · intro j a b hne _ hj
    rw [hcontent] at hj
    have hbind : ∀ {i j}, i < (tiptapFormat.items content).length → j < (tiptapFormat.items content).length → ∀ a b,
        (toggleCheckboxInContent content i a).bind (toggleCheckboxInContent · j b) =
          (tiptapFormat.toggle content i a).bind (tiptapFormat.toggle · j b) := by
      intro i j hi hj a b
      rw [toggle_tiptap hstates hi]
      cases htoggle : tiptapFormat.toggle content i a with
      | none => rfl
      | some result => exact hlater htoggle hj b
    rw [hbind h hj, hbind hj h, Format.toggle_comm tiptap_lawful hne]

/-- Toggling is a lens at the indices that do not go on from the task items in HTML to the task lines. -/
theorem lensAt_iff (hstates : HasStates (pieces 0 content)) : LensAt content i ↔ hasTaskItem (pieces 0 content) = false ∨
    i < (tiptapFormat.items content).length ∨ (markdownFormat.items content).length ≤ i := by
  cases hitems : hasTaskItem (pieces 0 content) with
  | false => simp [lensAt_markdown hitems i]
  | true =>
    by_cases hi : i < (tiptapFormat.items content).length
    · simp [lensAt_tiptap hstates hi, hi]
    · have hcontent : checklist content = tiptapFormat.items content := by simp [checklist, hitems]
      have hle : (tiptapFormat.items content).length ≤ i := Nat.le_of_not_lt hi
      constructor
      · intro hlens
        have hnone := (hlens.missing true).mpr (by rw [hcontent]; exact hle)
        rw [toggle_behind hstates hle, Format.toggle_eq_none] at hnone
        exact .inr (.inr hnone)
      · rintro (hfalse | hlt | hmarkdown)
        · cases hfalse
        · exact absurd hlt hi
        · have hnone : ∀ a, toggleCheckboxInContent content i a = none := by
            intro a
            rw [toggle_behind hstates hle, Format.toggle_eq_none]
            exact hmarkdown
          constructor
          · intro a
            rw [hcontent]
            exact iff_of_true (hnone a) hle
          · intro a result htoggle
            rw [hnone a] at htoggle
            cases htoggle
          · intro a result htoggle
            rw [hnone a] at htoggle
            cases htoggle
          · intro a b result htoggle
            rw [hnone a] at htoggle
            cases htoggle
          · intro j a b _ hlength _
            rw [hcontent] at hlength
            exact absurd hlength hi

/-- A list of the editor in front of a list in Markdown. -/
def mixedContent : List Char := "<li data-type=\"taskItem\" data-checked=\"false\">a</li>\n- [ ] x\n- [ ] y".toList

theorem lensAt_iff_mixed : LensAt mixedContent 0 ↔ hasTaskItem (pieces 0 mixedContent) = false ∨
    0 < (tiptapFormat.items mixedContent).length ∨ (markdownFormat.items mixedContent).length ≤ 0 := by
  have hall :
      ((pieces 0 mixedContent).filter fun p => p.text.length ≠ 1).all
        (fun p => (findText checkedTexts false p.text).isSome) = true := by
    decide +kernel
  refine lensAt_iff fun tag htag _ => List.all_eq_true.mp hall (.tag tag) (List.mem_filter.mpr ⟨htag, ?_⟩)
  have hlength := ((scanned_pieces 0 mixedContent).1.isLi htag).four_le
  have hne : tag.length ≠ 1 := by omega
  exact decide_eq_true hne

/-- The second item is missing, and the call writes the second task line. -/
theorem toggle_missing_item : checklist mixedContent = [false] ∧ toggleCheckboxInContent mixedContent 1 true =
    some "<li data-type=\"taskItem\" data-checked=\"false\">a</li>\n- [ ] x\n- [x] y".toList ∧
      ¬LensAt mixedContent 1 := by
  have hchecklist : checklist mixedContent = [false] := by decide +kernel
  have htoggle : toggleCheckboxInContent mixedContent 1 true =
      some "<li data-type=\"taskItem\" data-checked=\"false\">a</li>\n- [ ] x\n- [x] y".toList := by decide +kernel
  refine ⟨hchecklist, htoggle, fun hlens => ?_⟩
  have hnone := (hlens.missing true).mpr (by rw [hchecklist]; decide)
  rw [htoggle] at hnone
  cases hnone

end AdWiki.Content
