import AdWiki.Lib.Lines
import Mathlib

/-!
# The views of a difference

`buildUnified` and `buildSplit` turn the parts that the diff library returns into rows with line numbers.

* `Sheet.Counts`: what the rows of both views show so far, and the counters.
* `rows_reproduce_iff`: both views show both texts unless a part is one blank line.
* `blank_line_dropped`: a blank line that is added, and the number of the line after it.
-/

namespace AdWiki.Web

/-- A part of a difference, as `diffLines` returns it. -/
structure Change where
  value : List Char
  added : Bool
  removed : Bool
  exclusive : ¬(added = true ∧ removed = true)

inductive CellType
  | ctx
  | add
  | del
  deriving DecidableEq, Repr

structure Cell where
  num : Option Nat
  text : List Char
  type : CellType
  deriving DecidableEq, Repr

structure SplitRow where
  left : Option Cell
  right : Option Cell
  deriving DecidableEq, Repr

structure UnifiedRow where
  oldNum : Option Nat
  newNum : Option Nat
  text : List Char
  type : CellType
  deriving DecidableEq, Repr

/-- The variables `rows`, `oldNum` and `newNum` of the two builders. -/
structure Sheet (Row : Type) where
  rows : List Row
  oldNum : Nat
  newNum : Nat

def Sheet.empty {Row : Type} : Sheet Row := ⟨[], 1, 1⟩

def toLines (part : Change) : List (List Char) :=
  let value := if part.value.getLast? = some '\n' then part.value.dropLast else part.value
  if value = [] then [] else value.splitOn '\n'

def pushUnified (part : Change) (sheet : Sheet UnifiedRow) (text : List Char) : Sheet UnifiedRow :=
  if part.added then ⟨sheet.rows ++ [⟨none, some sheet.newNum, text, .add⟩], sheet.oldNum, sheet.newNum + 1⟩
  else if part.removed then ⟨sheet.rows ++ [⟨some sheet.oldNum, none, text, .del⟩], sheet.oldNum + 1, sheet.newNum⟩
  else ⟨sheet.rows ++ [⟨some sheet.oldNum, some sheet.newNum, text, .ctx⟩], sheet.oldNum + 1, sheet.newNum + 1⟩

def buildUnified (changes : List Change) : List UnifiedRow :=
  (changes.foldl (fun sheet part => (toLines part).foldl (pushUnified part) sheet) .empty).rows

def pushContext (sheet : Sheet SplitRow) (text : List Char) : Sheet SplitRow :=
  ⟨sheet.rows ++ [⟨some ⟨some sheet.oldNum, text, .ctx⟩, some ⟨some sheet.newNum, text, .ctx⟩⟩], sheet.oldNum + 1,
    sheet.newNum + 1⟩

def pushRemoved (sheet : Sheet SplitRow) (text : List Char) : Sheet SplitRow :=
  ⟨sheet.rows ++ [⟨some ⟨some sheet.oldNum, text, .del⟩, none⟩], sheet.oldNum + 1, sheet.newNum⟩

def pushAdded (sheet : Sheet SplitRow) (text : List Char) : Sheet SplitRow :=
  ⟨sheet.rows ++ [⟨none, some ⟨some sheet.newNum, text, .add⟩⟩], sheet.oldNum, sheet.newNum + 1⟩

/-- One round of the loop that pairs removed lines with added ones. -/
def pushPair (removedLines addedLines : List (List Char)) (sheet : Sheet SplitRow) (k : Nat) : Sheet SplitRow where
  rows := sheet.rows ++ [{
    left := removedLines[k]?.map fun text => ⟨some sheet.oldNum, text, .del⟩
    right := addedLines[k]?.map fun text => ⟨some sheet.newNum, text, .add⟩ }]
  oldNum := if k < removedLines.length then sheet.oldNum + 1 else sheet.oldNum
  newNum := if k < addedLines.length then sheet.newNum + 1 else sheet.newNum

def splitLoop : List Change → Sheet SplitRow → Sheet SplitRow
  | [], sheet => sheet
  | part :: rest, sheet =>
    if !part.added && !part.removed then splitLoop rest ((toLines part).foldl pushContext sheet)
    else if part.removed then
      match rest with
      | [] => (toLines part).foldl pushRemoved sheet
      | next :: rest' =>
        if next.added then
          splitLoop rest'
            ((List.range (max (toLines part).length (toLines next).length)).foldl
              (pushPair (toLines part) (toLines next)) sheet)
        else splitLoop (next :: rest') ((toLines part).foldl pushRemoved sheet)
    else splitLoop rest ((toLines part).foldl pushAdded sheet)

def buildSplit (changes : List Change) : List SplitRow := (splitLoop changes .empty).rows

/-! ## What the rows show -/

/-- The lines of the old text and of the new one that a row shows, with their numbers. -/
structure ShownLines where
  old : Option (List Char × Nat)
  new : Option (List Char × Nat)

def UnifiedRow.shown (row : UnifiedRow) : ShownLines where
  old := row.oldNum.map fun num => (row.text, num)
  new := row.newNum.map fun num => (row.text, num)

def SplitRow.shown (row : SplitRow) : ShownLines where
  old := row.left.bind fun cell => cell.num.map fun num => (cell.text, num)
  new := row.right.bind fun cell => cell.num.map fun num => (cell.text, num)

/-- Every line of both texts once, in order, numbered from 1. -/
structure Reproduces (rows : List ShownLines) (oldText newText : List Char) : Prop where
  old : rows.filterMap (·.old) = (linesOf '\n' oldText).zipIdx 1
  new : rows.filterMap (·.new) = (linesOf '\n' newText).zipIdx 1

/-- The diff of two texts: the parts hold whole lines, so in each text no part but the last goes on in the next. -/
structure IsDiff (changes : List Change) (oldText newText : List Char) : Prop where
  old : ((changes.filter (!·.added)).map (·.value)).flatten = oldText
  new : ((changes.filter (!·.removed)).map (·.value)).flatten = newText
  oldLines : ((changes.filter (!·.added)).map (·.value)).Pairwise fun value later => later ≠ [] → EndsLine '\n' value
  newLines : ((changes.filter (!·.removed)).map (·.value)).Pairwise fun value later => later ≠ [] → EndsLine '\n' value

/-! ## The loops -/

section Counts

variable {Row : Type} {shown : Row → ShownLines} {sheet : Sheet Row} {olds news : List (List Char)}

/-- The rows show these lines of the old and the new text, and the counters have the next numbers. -/
structure Sheet.Counts (shown : Row → ShownLines) (sheet : Sheet Row) (olds news : List (List Char)) : Prop where
  old : (sheet.rows.map shown).filterMap (·.old) = olds.zipIdx 1
  new : (sheet.rows.map shown).filterMap (·.new) = news.zipIdx 1
  oldNum : sheet.oldNum = olds.length + 1
  newNum : sheet.newNum = news.length + 1

theorem Sheet.empty_counts (shown : Row → ShownLines) : (Sheet.empty : Sheet Row).Counts shown [] [] :=
  ⟨rfl, rfl, rfl, rfl⟩

/-- A row that shows at most one further line of each text. -/
theorem Sheet.Counts.push {row : Row} {oldNum newNum : Nat} (old? new? : Option (List Char))
    (h : sheet.Counts shown olds news) (hold : (shown row).old = old?.map fun text => (text, sheet.oldNum))
    (hnew : (shown row).new = new?.map fun text => (text, sheet.newNum))
    (holdNum : oldNum = sheet.oldNum + old?.toList.length) (hnewNum : newNum = sheet.newNum + new?.toList.length) :
    Sheet.Counts shown ⟨sheet.rows ++ [row], oldNum, newNum⟩ (olds ++ old?.toList) (news ++ new?.toList) := by
  have hnext : ∀ (text? : Option (List Char)) (n : Nat),
      ([text?.map fun text => (text, n)] : List (Option (List Char × Nat))).filterMap id = text?.toList.zipIdx n := by
    intro text? n
    cases text? <;> rfl
  refine ⟨?_, ?_, ?_, ?_⟩
  · have hrow := hnext old? sheet.oldNum
    rw [List.map_append, List.filterMap_append, h.old, List.zipIdx_append, Nat.add_comm 1, ← h.oldNum, ← hrow, ← hold]
    simp [List.filterMap_cons]
  · have hrow := hnext new? sheet.newNum
    rw [List.map_append, List.filterMap_append, h.new, List.zipIdx_append, Nat.add_comm 1, ← h.newNum, ← hrow, ← hnew]
    simp [List.filterMap_cons]
  · have hcount := h.oldNum
    rw [List.length_append]
    dsimp only
    omega
  · have hcount := h.newNum
    rw [List.length_append]
    dsimp only
    omega

/-- A loop that pushes one row for each text of a list. -/
theorem Sheet.Counts.foldl (push : Sheet Row → List Char → Sheet Row) (inOld inNew : Bool)
    (h : sheet.Counts shown olds news)
    (hpush : ∀ (sheet : Sheet Row) (olds news : List (List Char)) (text : List Char), sheet.Counts shown olds news →
      (push sheet text).Counts shown (olds ++ if inOld then [text] else []) (news ++ if inNew then [text] else []))
    (lines : List (List Char)) :
    (lines.foldl push sheet).Counts shown (olds ++ if inOld then lines else [])
      (news ++ if inNew then lines else []) := by
  induction lines generalizing sheet olds news with
  | nil => simpa using h
  | cons text lines ih =>
    have hnext := ih (hpush sheet olds news text h)
    rw [List.foldl_cons]
    cases inOld <;> cases inNew <;> simpa using hnext

end Counts

/-- The lines that the loops make of the parts of the old text. -/
def oldLines (changes : List Change) : List (List Char) := (changes.filter (!·.added)).flatMap toLines

def newLines (changes : List Change) : List (List Char) := (changes.filter (!·.removed)).flatMap toLines

variable {changes rest : List Change} {part next : Change} {olds news lines : List (List Char)} {text : List Char}
  {oldText newText : List Char}

theorem oldLines_cons : oldLines (part :: rest) = (if !part.added then toLines part else []) ++ oldLines rest := by
  unfold oldLines
  cases hadded : part.added <;> simp [hadded]

theorem newLines_cons : newLines (part :: rest) = (if !part.removed then toLines part else []) ++ newLines rest := by
  unfold newLines
  cases hremoved : part.removed <;> simp [hremoved]

theorem not_added_of_removed (h : part.removed = true) : part.added = false := by
  by_contra hadded
  exact part.exclusive ⟨by simpa using hadded, h⟩

theorem not_removed_of_added (h : part.added = true) : part.removed = false := by
  by_contra hremoved
  exact part.exclusive ⟨h, by simpa using hremoved⟩

theorem oldLines_of_removed (h : part.removed = true) : oldLines (part :: rest) = toLines part ++ oldLines rest := by
  rw [oldLines_cons, not_added_of_removed h, Bool.not_false, if_pos rfl]

theorem newLines_of_removed (h : part.removed = true) : newLines (part :: rest) = newLines rest := by
  rw [newLines_cons, h, Bool.not_true, if_neg Bool.false_ne_true, List.nil_append]

theorem oldLines_of_added (h : part.added = true) : oldLines (part :: rest) = oldLines rest := by
  rw [oldLines_cons, h, Bool.not_true, if_neg Bool.false_ne_true, List.nil_append]

theorem newLines_of_added (h : part.added = true) : newLines (part :: rest) = toLines part ++ newLines rest := by
  rw [newLines_cons, not_removed_of_added h, Bool.not_false, if_pos rfl]

/-! ### The unified view -/

theorem pushUnified_counts {sheet : Sheet UnifiedRow} (h : sheet.Counts UnifiedRow.shown olds news) :
    (pushUnified part sheet text).Counts UnifiedRow.shown (olds ++ if !part.added then [text] else [])
      (news ++ if !part.removed then [text] else []) := by
  unfold pushUnified
  by_cases hadded : part.added = true
  · have hremoved := not_removed_of_added hadded
    rw [if_pos hadded]
    simp only [hadded, hremoved, Bool.not_true, Bool.not_false, Bool.false_eq_true, if_false, if_true]
    exact h.push none (some text) rfl rfl rfl rfl
  rw [if_neg hadded]
  by_cases hremoved : part.removed = true
  · rw [if_pos hremoved]
    simp only [hadded, hremoved, Bool.not_true, Bool.not_false, Bool.false_eq_true, if_false, if_true]
    exact h.push (some text) none rfl rfl rfl rfl
  · rw [if_neg hremoved]
    simp only [hadded, hremoved, Bool.not_false, if_true]
    exact h.push (some text) (some text) rfl rfl rfl rfl

theorem unified_counts (changes : List Change) {sheet : Sheet UnifiedRow} (h : sheet.Counts UnifiedRow.shown olds news) :
    (changes.foldl (fun sheet part => (toLines part).foldl (pushUnified part) sheet) sheet).Counts UnifiedRow.shown
      (olds ++ oldLines changes) (news ++ newLines changes) := by
  induction changes generalizing sheet olds news with
  | nil => simpa [oldLines, newLines] using h
  | cons part changes ih =>
    have hpart := h.foldl (pushUnified part) _ _ (fun sheet olds news text h => pushUnified_counts h) (toLines part)
    have hrest := ih hpart
    rw [List.append_assoc, List.append_assoc, ← oldLines_cons, ← newLines_cons] at hrest
    exact hrest

/-! ### The split view -/

theorem pushPair_counts {sheet : Sheet SplitRow} (removedLines addedLines : List (List Char)) (k : Nat)
    (h : sheet.Counts SplitRow.shown olds news) : (pushPair removedLines addedLines sheet k).Counts SplitRow.shown
      (olds ++ removedLines[k]?.toList) (news ++ addedLines[k]?.toList) := by
  have hgrow :
      ∀ (lines : List (List Char)) (n : Nat), (if k < lines.length then n + 1 else n) = n + lines[k]?.toList.length := by
    intro lines n
    by_cases hk : k < lines.length <;> simp [hk]
  have hcell : ∀ (text? : Option (List Char)) (num : Nat) (type : CellType),
      ((text?.map fun text => (⟨some num, text, type⟩ : Cell)).bind fun cell => cell.num.map fun num =>
        (cell.text, num)) =
        text?.map fun text => (text, num) := by
    intro text? num type
    cases text? <;> rfl
  exact h.push _ _ (hcell _ _ _) (hcell _ _ _) (hgrow _ _) (hgrow _ _)

theorem pairs_counts {sheet : Sheet SplitRow} (removedLines addedLines : List (List Char)) (k : Nat)
    (h : sheet.Counts SplitRow.shown olds news) :
    ((List.range k).foldl (pushPair removedLines addedLines) sheet).Counts SplitRow.shown (olds ++ removedLines.take k)
      (news ++ addedLines.take k) := by
  induction k with
  | zero => simpa using h
  | succ k ih =>
    have hnext := pushPair_counts removedLines addedLines k ih
    rw [List.range_succ, List.foldl_append, List.take_add_one,
      List.take_add_one, ← List.append_assoc, ← List.append_assoc]
    exact hnext

/-- Pairing removed with added lines does not change what the rows show. -/
theorem splitLoop_counts (changes : List Change) {sheet : Sheet SplitRow} (h : sheet.Counts SplitRow.shown olds news) :
    (splitLoop changes sheet).Counts SplitRow.shown (olds ++ oldLines changes) (news ++ newLines changes) := by
  have hcontext : ∀ {sheet : Sheet SplitRow} {olds news : List (List Char)} (lines : List (List Char)),
      sheet.Counts SplitRow.shown olds news →
        (lines.foldl pushContext sheet).Counts SplitRow.shown (olds ++ lines) (news ++ lines) :=
    fun lines h => h.foldl _ true true
      (fun sheet olds news text h => h.push (some text) (some text) rfl rfl rfl rfl) lines
  have hremoved : ∀ {sheet : Sheet SplitRow} {olds news : List (List Char)} (lines : List (List Char)),
      sheet.Counts SplitRow.shown olds news →
        (lines.foldl pushRemoved sheet).Counts SplitRow.shown (olds ++ lines) (news ++ []) :=
    fun lines h => h.foldl _ true false
      (fun sheet olds news text h => h.push (some text) none rfl rfl rfl rfl) lines
  have hadded : ∀ {sheet : Sheet SplitRow} {olds news : List (List Char)} (lines : List (List Char)),
      sheet.Counts SplitRow.shown olds news →
        (lines.foldl pushAdded sheet).Counts SplitRow.shown (olds ++ []) (news ++ lines) :=
    fun lines h => h.foldl _ false true
      (fun sheet olds news text h => h.push none (some text) rfl rfl rfl rfl) lines
  fun_induction splitLoop changes sheet generalizing olds news with
  | case1 sheet => simpa [oldLines, newLines] using h
  | case2 part rest sheet hplain ih =>
    obtain ⟨hnotAdded, hnotRemoved⟩ := Bool.and_eq_true_iff.mp hplain
    have hrest := ih (hcontext (toLines part) h)
    rw [oldLines_cons, newLines_cons, if_pos hnotAdded, if_pos hnotRemoved, ← List.append_assoc, ← List.append_assoc]
    exact hrest
  | case3 part sheet _ hpart =>
    have hlast := hremoved (toLines part) h
    rw [oldLines_of_removed hpart, newLines_of_removed hpart]
    simpa [oldLines, newLines] using hlast
  | case4 part sheet _ hpart next rest hnext ih =>
    have hpairs := pairs_counts (toLines part) (toLines next)
      (max (toLines part).length (toLines next).length) h
    rw [List.take_of_length_le (Nat.le_max_left _ _), List.take_of_length_le (Nat.le_max_right _ _)] at hpairs
    have hrest := ih hpairs
    rw [oldLines_of_removed hpart, newLines_of_removed hpart, oldLines_of_added hnext,
      newLines_of_added hnext, ← List.append_assoc, ← List.append_assoc]
    exact hrest
  | case5 part sheet _ hpart next rest _ ih =>
    have hrest := ih (hremoved (toLines part) h)
    rw [List.append_nil] at hrest
    rw [oldLines_of_removed hpart, newLines_of_removed hpart, ← List.append_assoc]
    exact hrest
  | case6 part rest sheet hplain hpart ih =>
    have hadd : part.added = true := by
      by_contra hnot
      exact hplain (by simp [hnot, hpart])
    have hrest := ih (hadded (toLines part) h)
    rw [List.append_nil] at hrest
    rw [oldLines_of_added hadd, newLines_of_added hadd, ← List.append_assoc]
    exact hrest

/-! ## Lines that are lost -/

/-- The lines of a part, without those of a part that is one blank line. -/
theorem toLines_eq (part : Change) : toLines part = if part.value = ['\n'] then [] else linesOf '\n' part.value := by
  unfold toLines
  by_cases hend : part.value.getLast? = some '\n'
  · obtain ⟨front, hfront⟩ := List.getLast?_eq_some_iff.mp hend
    dsimp only
    rw [if_pos hend, hfront, List.dropLast_concat, linesOf_append_newline]
    simp
  · have hblank : part.value ≠ ['\n'] := fun hblank => hend (by rw [hblank]; rfl)
    dsimp only
    rw [if_neg hend, if_neg hblank]
    by_cases hnil : part.value = []
    · rw [if_pos hnil, hnil, linesOf_nil]
    · rw [if_neg hnil, linesOf_of_not_endsLine (not_or.mpr ⟨hnil, hend⟩)]

/-- The loops see all lines of a list of parts exactly if none of them is one blank line. -/
theorem flatMap_toLines_iff {parts : List Change} :
    parts.flatMap toLines = (parts.map (·.value)).flatMap (linesOf '\n') ↔ ∀ part ∈ parts, part.value ≠ ['\n'] := by
  have hshort : ∀ part : Change, (toLines part).length ≤ (linesOf '\n' part.value).length := by
    intro part
    rw [toLines_eq]
    split <;> simp
  have hall :
      ∀ parts : List Change, (parts.flatMap toLines).length ≤ ((parts.map (·.value)).flatMap (linesOf '\n')).length := by
    intro parts
    induction parts with
    | nil => simp
    | cons part parts ih =>
      have hpart := hshort part
      simp only [List.map_cons, List.flatMap_cons, List.length_append]
      omega
  induction parts with
  | nil => simp
  | cons part parts ih =>
    have hsplit : (∀ part' ∈ part :: parts, part'.value ≠ ['\n']) ↔
        part.value ≠ ['\n'] ∧ parts.flatMap toLines = (parts.map (·.value)).flatMap (linesOf '\n') := by
      rw [List.forall_mem_cons]
      exact and_congr_right fun _ => ih.symm
    rw [hsplit, List.map_cons, List.flatMap_cons, List.flatMap_cons]
    constructor
    · intro heq
      have hlength := congrArg List.length heq
      rw [List.length_append, List.length_append] at hlength
      have hpart := hshort part
      have hparts := hall parts
      have hsame : toLines part = linesOf '\n' part.value := (List.append_inj heq (by omega)).1
      refine ⟨fun hblank => ?_, (List.append_inj heq (by omega)).2⟩
      rw [toLines_eq, if_pos hblank, hblank] at hsame
      exact absurd hsame (by decide)
    · rintro ⟨hpart, hparts⟩
      rw [hparts, toLines_eq, if_neg hpart]

/-- The rows have all lines of the texts exactly if no part is one blank line. -/
theorem reproduces_iff {rows : List ShownLines} (hdiff : IsDiff changes oldText newText)
    (hold : rows.filterMap (·.old) = (oldLines changes).zipIdx 1)
    (hnew : rows.filterMap (·.new) = (newLines changes).zipIdx 1) :
    Reproduces rows oldText newText ↔ ∀ part ∈ changes, part.value ≠ ['\n'] := by
  have hzip : ∀ left right : List (List Char), left.zipIdx 1 = right.zipIdx 1 ↔ left = right := by
    intro left right
    refine ⟨fun h => ?_, fun h => by rw [h]⟩
    have hmap := congrArg (List.map Prod.fst) h
    rwa [List.zipIdx_map_fst, List.zipIdx_map_fst] at hmap
  have holdText : linesOf '\n' oldText = ((changes.filter (!·.added)).map (·.value)).flatMap (linesOf '\n') := by
    rw [← hdiff.old, linesOf_flatten hdiff.oldLines]
  have hnewText : linesOf '\n' newText = ((changes.filter (!·.removed)).map (·.value)).flatMap (linesOf '\n') := by
    rw [← hdiff.new, linesOf_flatten hdiff.newLines]
  have hboth : Reproduces rows oldText newText ↔
      (∀ part ∈ changes.filter (!·.added), part.value ≠ ['\n']) ∧
        ∀ part ∈ changes.filter (!·.removed), part.value ≠ ['\n'] := by
    rw [← flatMap_toLines_iff, ← flatMap_toLines_iff, ← holdText, ← hnewText, ← hzip, ← hzip]
    constructor
    · intro h
      exact ⟨hold.symm.trans h.old, hnew.symm.trans h.new⟩
    · rintro ⟨h, h'⟩
      exact ⟨hold.trans h, hnew.trans h'⟩
  rw [hboth]
  constructor
  · rintro ⟨hkept, hkept'⟩ part hpart
    by_cases hadded : part.added = true
    · exact hkept' part (List.mem_filter.mpr ⟨hpart, by simp [not_removed_of_added hadded]⟩)
    · exact hkept part (List.mem_filter.mpr ⟨hpart, by simp [hadded]⟩)
  · intro hall
    exact ⟨fun part hpart => hall part (List.mem_filter.mp hpart).1, fun part hpart =>
      hall part (List.mem_filter.mp hpart).1⟩

/-- Both views show both texts exactly if no part is one blank line. -/
theorem rows_reproduce_iff (changes : List Change) (oldText newText : List Char)
    (hdiff : IsDiff changes oldText newText) :
    (Reproduces ((buildUnified changes).map UnifiedRow.shown) oldText newText ∧
        Reproduces ((buildSplit changes).map SplitRow.shown) oldText newText) ↔
      ∀ part ∈ changes, part.value ≠ ['\n'] := by
  have hunified := unified_counts changes (Sheet.empty_counts UnifiedRow.shown)
  have hsplit := splitLoop_counts changes (Sheet.empty_counts SplitRow.shown)
  have hfirst : Reproduces ((buildUnified changes).map UnifiedRow.shown) oldText newText ↔
      ∀ part ∈ changes, part.value ≠ ['\n'] :=
    reproduces_iff hdiff hunified.old hunified.new
  have hsecond : Reproduces ((buildSplit changes).map SplitRow.shown) oldText newText ↔
      ∀ part ∈ changes, part.value ≠ ['\n'] :=
    reproduces_iff hdiff hsplit.old hsplit.new
  rw [hfirst, hsecond, and_self]

namespace DiffDemo

def kept (value : String) : Change := ⟨value.toList, false, false, by decide⟩

def addition (value : String) : Change := ⟨value.toList, true, false, by decide⟩

def removal (value : String) : Change := ⟨value.toList, false, true, by decide⟩

/-- The last line of the old text has no newline. -/
def noNewline : List Change := [kept "a\n", removal "b", addition "b\nc\n"]

/-- A blank line is put between two lines. -/
def blankLine : List Change := [kept "a\n", addition "\n", kept "b\n"]

end DiffDemo

theorem rows_reproduce_iff_noNewline :
    (Reproduces ((buildUnified DiffDemo.noNewline).map UnifiedRow.shown) "a\nb".toList "a\nb\nc\n".toList ∧
        Reproduces ((buildSplit DiffDemo.noNewline).map SplitRow.shown) "a\nb".toList "a\nb\nc\n".toList) ↔
      ∀ part ∈ DiffDemo.noNewline, part.value ≠ ['\n'] :=
  rows_reproduce_iff _ _ _
    ⟨by decide, by decide, by simp [DiffDemo.noNewline, DiffDemo.kept, DiffDemo.addition, DiffDemo.removal, EndsLine],
    by simp [DiffDemo.noNewline, DiffDemo.kept, DiffDemo.addition, DiffDemo.removal, EndsLine]⟩

/-- Both views show the lines of the new text without the blank one, and its last line has the number 2. -/
theorem blank_line_dropped :
    IsDiff DiffDemo.blankLine "a\nb\n".toList "a\n\nb\n".toList ∧
      ((buildUnified DiffDemo.blankLine).map UnifiedRow.shown).filterMap (·.new) = [(['a'], 1), (['b'], 2)] ∧
      ((buildSplit DiffDemo.blankLine).map SplitRow.shown).filterMap (·.new) = [(['a'], 1), (['b'], 2)] ∧
      ¬Reproduces ((buildUnified DiffDemo.blankLine).map UnifiedRow.shown) "a\nb\n".toList "a\n\nb\n".toList ∧
      ¬Reproduces ((buildSplit DiffDemo.blankLine).map SplitRow.shown) "a\nb\n".toList "a\n\nb\n".toList := by
  refine ⟨⟨by decide, by decide, ?_, ?_⟩, by decide, by decide, fun h => absurd h.new (by decide),
    fun h => absurd h.new (by decide)⟩
  · simp [DiffDemo.blankLine, DiffDemo.kept, DiffDemo.addition, EndsLine]
  · simp [DiffDemo.blankLine, DiffDemo.kept, DiffDemo.addition, EndsLine]

end AdWiki.Web
