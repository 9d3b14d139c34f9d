import AdWiki.Content.ToggleCheckbox
import AdWiki.Lib.Checklist
import Mathlib

/-!
# The task lines of Markdown

* `splitLines_parts`: the lines and separators of a text are those that it has been put together from.
* `matchTask_eq_some`: the form of a task line.
* `markdown_lawful`: writing the mark of a task line keeps the parts and the other marks.
* `toggleMarkdownTaskItem_eq`: the loop writes the mark with the given number.
-/

namespace AdWiki.Content

open Js Checklist

variable {content line line' text sep part : List Char} {parts rest : List (List Char)} {c : Char} {k i : Nat}
  {fence : Option Fence}
  {checked : Bool}

/-! ## Lines -/

def NoBreak (line : List Char) : Prop := '\n' ∉ line ∧ '\r' ∉ line

/-- Lines and separators by turns, no separator being the beginning of a longer one. -/
inductive Parts : List (List Char) → Prop
  | last {line : List Char} : NoBreak line → Parts [line]
  | more {line sep : List Char} {rest : List (List Char)} : NoBreak line → isSeparator sep = true →
      (sep = ['\r'] → rest.flatten.head? ≠ some '\n') → Parts rest → Parts (line :: sep :: rest)

theorem isSeparator_iff : isSeparator sep = true ↔ sep = ['\r', '\n'] ∨ sep = ['\n'] ∨ sep = ['\r'] := by
  simp [isSeparator, or_assoc]

theorem not_isSeparator (h : NoBreak line) : isSeparator line = false := by
  by_contra hsep
  rw [Bool.not_eq_false, isSeparator_iff] at hsep
  rcases hsep with rfl | rfl | rfl
  · exact h.1 (by decide)
  · exact h.1 (by decide)
  · exact h.2 (by decide)

theorem splitLines_ne_nil (content : List Char) : splitLines content ≠ [] := by
  fun_cases splitLines content <;> simp_all

theorem splitLines_char (hn : c ≠ '\n') (hr : c ≠ '\r') (text : List Char) :
    splitLines (c :: text) = (splitLines text).modifyHead (c :: ·) := by
  rw [splitLines]
  · cases hparts : splitLines text with
    | nil => exact absurd hparts (splitLines_ne_nil text)
    | cons => rfl
  all_goals
    intros
    simp_all

theorem splitLines_line (h : NoBreak line) (text : List Char) :
    splitLines (line ++ text) = (splitLines text).modifyHead (line ++ ·) := by
  induction line with
  | nil => cases hparts : splitLines text <;> simp [hparts]
  | cons c line ih =>
    have hline : NoBreak line :=
      ⟨fun hmem => h.1 (List.mem_cons_of_mem c hmem), fun hmem => h.2 (List.mem_cons_of_mem c hmem)⟩
    have hn : c ≠ '\n' := fun heq => h.1 (heq ▸ List.mem_cons_self)
    have hr : c ≠ '\r' := fun heq => h.2 (heq ▸ List.mem_cons_self)
    rw [List.cons_append, splitLines_char hn hr, ih hline]
    cases splitLines text <;> rfl

theorem splitLines_separator (hsep : isSeparator sep = true) (hshort : sep = ['\r'] → text.head? ≠ some '\n') :
    splitLines (sep ++ text) = [] :: sep :: splitLines text := by
  rcases isSeparator_iff.mp hsep with rfl | rfl | rfl
  · rfl
  · rfl
  · cases text with
    | nil => rfl
    | cons c text =>
      have hne : c ≠ '\n' := fun heq => hshort rfl (by rw [heq]; rfl)
      show splitLines ('\r' :: c :: text) = _
      rw [splitLines]
      intro cs heq
      exact hne (List.cons.inj heq).1

theorem splitLines_parts (h : Parts parts) : splitLines parts.flatten = parts := by
  induction h with
  | last hline =>
    have hsplit := splitLines_line hline []
    rw [List.append_nil] at hsplit
    rw [List.flatten_singleton, hsplit]
    simp [splitLines]
  | more hline hsep hshort _ ih =>
    rw [List.flatten_cons, List.flatten_cons, splitLines_line hline, splitLines_separator hsep hshort, ih]
    simp

theorem Parts.head (h : Parts (line :: rest)) : NoBreak line := by
  cases h with
  | last hline => exact hline
  | more hline => exact hline

theorem Parts.change_head (h : Parts (line :: rest)) (hline' : NoBreak line') : Parts (line' :: rest) := by
  cases h with
  | last => exact .last hline'
  | more _ hsep hshort hrest => exact .more hline' hsep hshort hrest

theorem noBreak_cons (hn : c ≠ '\n') (hr : c ≠ '\r') (h : NoBreak line) : NoBreak (c :: line) :=
  ⟨List.not_mem_cons_of_ne_of_not_mem hn.symm h.1, List.not_mem_cons_of_ne_of_not_mem hr.symm h.2⟩

theorem parts_splitLines (content : List Char) : Parts (splitLines content) ∧ (splitLines content).flatten = content := by
  fun_induction splitLines content with
  | case1 => exact ⟨.last ⟨List.not_mem_nil, List.not_mem_nil⟩, rfl⟩
  | case2 cs ih =>
    refine ⟨.more ⟨List.not_mem_nil, List.not_mem_nil⟩ (by decide) (fun h => absurd h (by decide)) ih.1, ?_⟩
    rw [List.flatten_cons, List.flatten_cons, ih.2]
    rfl
  | case3 cs hshort ih =>
    refine ⟨.more ⟨List.not_mem_nil, List.not_mem_nil⟩ (by decide) (fun _ hhead => ?_) ih.1, ?_⟩
    · rw [ih.2] at hhead
      cases cs with
      | nil => cases hhead
      | cons c cs => exact hshort cs (by rw [Option.some.inj hhead])
    · rw [List.flatten_cons, List.flatten_cons, ih.2]
      rfl
  | case4 cs ih =>
    refine ⟨.more ⟨List.not_mem_nil, List.not_mem_nil⟩ (by decide) (fun h => absurd h (by decide)) ih.1, ?_⟩
    rw [List.flatten_cons, List.flatten_cons, ih.2]
    rfl
  | case5 c cs _ _ _ hnil => exact absurd hnil (splitLines_ne_nil cs)
  | case6 c cs _ hr hn line parts hparts ih =>
    rw [hparts] at ih
    refine ⟨ih.1.change_head (noBreak_cons hn hr ih.1.head), ?_⟩
    have hjoin := ih.2
    rw [List.flatten_cons] at hjoin ⊢
    rw [List.cons_append, hjoin]

/-- A line that has text is replaced by another one. -/
theorem Parts.set (h : Parts parts) (hk : parts[k]? = some line) (hline : NoBreak line) (hne : line ≠ [])
    (hline' : NoBreak line')
    (hne' : line' ≠ []) :
    Parts (parts.set k line') ∧ ((parts.set k line').flatten.head? = some '\n' → parts.flatten.head? = some '\n') := by
  have hhead : ∀ (first : List Char) (rest : List (List Char)), NoBreak first → first ≠ [] →
      (first :: rest).flatten.head? ≠ some '\n' := by
    intro first rest hfirst hfirstNe heq
    cases first with
    | nil => exact hfirstNe rfl
    | cons c first => exact hfirst.1 (Option.some.inj heq ▸ List.mem_cons_self)
  induction h generalizing k with
  | @last first hfirst =>
    cases k with
    | zero => exact ⟨.last hline', fun heq => absurd heq (hhead line' [] hline' hne')⟩
    | succ k => cases hk
  | @more first sep rest hfirst hsep hshort hrest ih =>
    cases k with
    | zero => exact ⟨.more hline' hsep hshort hrest, fun heq => absurd heq (hhead line' _ hline' hne')⟩
    | succ k =>
      cases k with
      | zero =>
        obtain rfl : sep = line := Option.some.inj hk
        rw [not_isSeparator hline] at hsep
        cases hsep
      | succ k =>
        obtain ⟨hset, hsame⟩ := ih hk
        refine ⟨.more hfirst hsep (fun heq hhead => hshort heq (hsame hhead)) hset, fun heq => ?_⟩
        cases first with
        | cons c first => exact heq
        | nil =>
          rcases isSeparator_iff.mp hsep with rfl | rfl | rfl <;> exact heq

/-! ## Task lines -/

/-- `\s*[-+*]\s+\[` -/
def TaskStart (start : List Char) : Prop :=
  ∃ indent bullet gap, (∀ c ∈ indent, isSpace c = true) ∧ bullet ∈ "-+*".toList ∧ gap ≠ [] ∧
  (∀ c ∈ gap, isSpace c = true) ∧ start = indent ++ bullet :: gap ++ ['[']

theorem not_isSpace_bullet {bullet : Char} (h : bullet ∈ "-+*".toList) : isSpace bullet = false := by
  have hall : ("-+*".toList.all fun bullet => !isSpace bullet) = true := by decide
  simpa using List.all_eq_true.mp hall bullet h

theorem takeWhile_spaces {gap : List Char} (hgap : ∀ c ∈ gap, isSpace c = true) (hc : isSpace c = false)
    (text : List Char) :
    (gap ++ c :: text).takeWhile isSpace = gap ∧ (gap ++ c :: text).dropWhile isSpace = c :: text := by
  have hstop : ¬isSpace c = true := by simp [hc]
  rw [List.takeWhile_append_of_pos hgap, List.dropWhile_append_of_pos hgap, List.takeWhile_cons_of_neg hstop,
    List.dropWhile_cons_of_neg hstop, List.append_nil]
  exact ⟨rfl, rfl⟩

theorem matchTask_eq_some {start : List Char} {mark : Char} :
    matchTask line = some (start, mark, text) ↔ TaskStart start ∧ mark ∈ " xX".toList ∧ line = start ++ mark ::
      ']' :: text := by
  constructor
  · intro h
    unfold matchTask at h
    dsimp only at h
    split at h
    · cases h
    · next bullet rest hrest =>
      split at h
      · next mark' text' htail =>
        split at h
        · next hform =>
          cases h
          simp only [Bool.and_eq_true, List.contains_iff_mem, decide_eq_true_eq] at hform
          refine ⟨⟨_, bullet, _, fun c hc => List.mem_takeWhile_imp hc, hform.1.1, hform.1.2,
            fun c hc => List.mem_takeWhile_imp hc, rfl⟩,
            hform.2, ?_⟩
          conv_lhs => rw [← List.takeWhile_append_dropWhile (p := isSpace) (l := line), hrest,
            ← List.takeWhile_append_dropWhile (p := isSpace) (l := rest), htail]
          simp
        · cases h
      · cases h
  · rintro ⟨⟨indent, bullet, gap, hindent, hbullet, hgap, hspaces, rfl⟩, hmark, rfl⟩
    have hline : indent ++ bullet :: gap ++ ['['] ++ mark :: ']' :: text = indent ++ bullet ::
      (gap ++ '[' :: mark :: ']' :: text) := by simp
    obtain ⟨hfirst, hrest⟩ := takeWhile_spaces hindent (not_isSpace_bullet hbullet) (gap ++ '[' :: mark :: ']' :: text)
    obtain ⟨hsecond, htail⟩ := takeWhile_spaces hspaces (by decide : isSpace '[' = false) (mark :: ']' :: text)
    unfold matchTask
    rw [hline, hfirst, hrest]
    dsimp only
    rw [hsecond, htail]
    simp only [List.contains_iff_mem.mpr hbullet, List.contains_iff_mem.mpr hmark, hgap, ne_eq, not_false_eq_true,
      decide_true, Bool.and_self, if_true]

/-- A task line does not open or close a fence. -/
theorem matchFence_task {start : List Char} (h : TaskStart start) (text : List Char) :
    matchFence (start ++ text) = none := by
  obtain ⟨indent, bullet, gap, hindent, hbullet, -, -, rfl⟩ := h
  have hline : indent ++ bullet :: gap ++ ['['] ++ text = indent ++ bullet :: (gap ++ '[' :: text) := by simp
  have hmarker : ("-+*".toList.all fun bullet => !(bullet == Char.ofNat 96 || bullet == '~')) = true := by decide
  have hnot := List.all_eq_true.mp hmarker bullet hbullet
  rw [Bool.not_eq_true'] at hnot
  unfold matchFence
  rw [hline, (takeWhile_spaces hindent (not_isSpace_bullet hbullet) _).2]
  dsimp only
  rw [hnot]
  rfl

/-! ## The marks -/

/-- The marks of the task lines outside of fences. -/
def markdownMarks : Option Fence → List (List Char) → List (Option Bool)
  | _, [] => []
  | fence, line :: parts =>
    if isSeparator line then none :: markdownMarks fence parts
    else
      match matchFence line with
      | some found => none :: markdownMarks (nextFence fence found) parts
      | none =>
        if fence.isSome then none :: markdownMarks fence parts
        else (matchTask line).map (fun task => task.2.1 != ' ') :: markdownMarks fence parts

def putTask (checked : Bool) (line : List Char) : List Char :=
  match matchTask line with
  | none => line
  | some task => task.1 ++ taskMark checked :: ']' :: task.2.2

def markdownFormat : Format Char (List Char) Bool where
  scan := splitLines
  join := List.flatten
  marks := markdownMarks none
  put := putTask

theorem taskMark_mem (checked : Bool) : taskMark checked ∈ " xX".toList := by
  cases checked <;> decide

theorem matchTask_putTask {start : List Char} {mark : Char} (h : matchTask line = some (start, mark, text))
    (checked : Bool) :
    putTask checked line = start ++ taskMark checked :: ']' :: text ∧
      matchTask (putTask checked line) = some (start, taskMark checked, text) := by
  have hput : putTask checked line = start ++ taskMark checked :: ']' :: text := by
    unfold putTask
    rw [h]
  refine ⟨hput, ?_⟩
  rw [hput]
  exact matchTask_eq_some.mpr ⟨(matchTask_eq_some.mp h).1, taskMark_mem checked, rfl⟩

theorem not_isSeparator_task {start : List Char} (h : TaskStart start) (text : List Char) :
    isSeparator (start ++ text) = false := by
  obtain ⟨indent, bullet, gap, -, -, -, -, rfl⟩ := h
  have hbracket : '[' ∈ indent ++ bullet :: gap ++ ['['] ++ text := by simp
  by_contra hsep
  rw [Bool.not_eq_false, isSeparator_iff] at hsep
  rcases hsep with heq | heq | heq
  all_goals
    rw [heq] at hbracket
    exact absurd hbracket (by decide)

/-- A marked part is a task line, and writing its mark leaves the other marks. -/
theorem markdownMarks_modify {t : Bool} (h : (markdownMarks fence parts)[k]? = some (some t)) :
    ∃ line start mark text, parts[k]? = some line ∧ matchTask line = some (start, mark, text) ∧
      ∀ checked,
        markdownMarks fence (parts.modify k (putTask checked)) = (markdownMarks fence parts).set k (some checked) := by
  induction parts generalizing fence k with
  | nil => cases h
  | cons line parts ih =>
    cases k with
    | zero =>
      have hline : isSeparator line = false ∧ matchFence line = none ∧ fence.isSome = false ∧
          ∃ task, matchTask line = some task := by
        rw [markdownMarks] at h
        split at h
        · cases h
        · next hsep =>
          split at h
          · cases h
          · next hfence =>
            split at h
            · cases h
            · next hopen =>
              obtain ⟨task, htask, -⟩ := Option.map_eq_some_iff.mp (Option.some.inj h)
              exact ⟨by simpa using hsep, hfence, by simpa using hopen, task, htask⟩
      obtain ⟨hsep, hfence, hopen, ⟨start, mark, text⟩, htask⟩ := hline
      obtain ⟨hstart, -, -⟩ := matchTask_eq_some.mp htask
      refine ⟨line, start, mark, text, rfl, htask, fun checked => ?_⟩
      obtain ⟨hput, hagain⟩ := matchTask_putTask htask checked
      have hmark : (taskMark checked != ' ') = checked := by cases checked <;> rfl
      have hsep' : isSeparator (putTask checked line) = false := hput ▸ not_isSeparator_task hstart _
      have hfence' : matchFence (putTask checked line) = none := hput ▸ matchFence_task hstart _
      rw [List.modify_zero_cons, markdownMarks, markdownMarks, hsep, hsep', hfence, hfence', hopen, hagain]
      simp [hmark]
    | succ k =>
      have hrest : ∃ fence', markdownMarks fence (line :: parts) = (markdownMarks fence (line :: parts)).headD none ::
        markdownMarks fence' parts ∧
          ∀ others, markdownMarks fence (line :: others) = (markdownMarks fence (line :: parts)).headD none ::
            markdownMarks fence' others := by
        cases hsep : isSeparator line with
        | true => exact ⟨fence, by simp [markdownMarks, hsep]⟩
        | false =>
          cases hfence : matchFence line with
          | some found => exact ⟨nextFence fence found, by simp [markdownMarks, hsep, hfence]⟩
          | none => cases hopen : fence.isSome <;> exact ⟨fence, by simp [markdownMarks, hsep, hfence, hopen]⟩
      obtain ⟨fence', hself, hothers⟩ := hrest
      rw [hself, List.getElem?_cons_succ] at h
      obtain ⟨line', start, mark, text, hk, htask, hmarks⟩ := ih h
      refine ⟨line', start, mark, text, hk, htask, fun checked => ?_⟩
      rw [List.modify_succ_cons, hothers, hmarks checked, hself, List.set_cons_succ]
      rfl

theorem Parts.noBreak (h : Parts parts) (hpart : part ∈ parts) (hsep : isSeparator part = false) : NoBreak part := by
  induction h with
  | last hline => exact List.mem_singleton.mp hpart ▸ hline
  | more hline hsep' _ _ ih =>
    rcases List.mem_cons.mp hpart with rfl | hpart
    · exact hline
    · rcases List.mem_cons.mp hpart with rfl | hpart
      · rw [hsep'] at hsep
        cases hsep
      · exact ih hpart

theorem splitLines_written {line start : List Char} {mark : Char} (hk : (splitLines content)[k]? = some line)
    (htask : matchTask line = some (start, mark, text)) (checked : Bool) :
    splitLines ((splitLines content).modify k (putTask checked)).flatten =
      (splitLines content).modify k (putTask checked) := by
  obtain ⟨hstart, -, hline⟩ := matchTask_eq_some.mp htask
  have hnoBreak : NoBreak line :=
    (parts_splitLines content).1.noBreak (List.mem_of_getElem? hk) (hline ▸ not_isSeparator_task hstart _)
  have hput := (matchTask_putTask htask checked).1
  have hnoBreak' : NoBreak (putTask checked line) := by
    have hmark : taskMark checked ≠ '\n' ∧ taskMark checked ≠ '\r' := by cases checked <;> decide
    rw [hline] at hnoBreak
    rw [hput]
    simp only [NoBreak, List.mem_append, List.mem_cons, not_or] at hnoBreak ⊢
    tauto
  rw [modify_eq_set hk]
  refine splitLines_parts ((parts_splitLines content).1.set hk hnoBreak ?_ hnoBreak' ?_).1
  · rw [hline]
    simp
  · rw [hput]
    simp

theorem markdown_lawful : markdownFormat.Lawful where
  scan_written content k checked t h := by
    obtain ⟨line, start, mark, text, hk, htask, -⟩ := markdownMarks_modify h
    exact splitLines_written hk htask checked
  marks_written content k checked t h := by
    obtain ⟨-, -, -, -, -, -, hmarks⟩ := markdownMarks_modify h
    exact hmarks checked
  put_put content k part a b t h hpart := by
    obtain ⟨line, start, mark, text, hk, htask, -⟩ := markdownMarks_modify h
    obtain rfl : line = part := Option.some.inj (hk.symm.trans hpart)
    obtain ⟨hput, hagain⟩ := matchTask_putTask htask a
    show putTask b (putTask a line) = putTask b line
    rw [(matchTask_putTask hagain b).1, (matchTask_putTask htask b).1]

/-! ## The loop -/

/-- The loop counts the marks and writes one of them. -/
theorem markdownLoop_eq (i : Nat) (checked : Bool) (fence : Option Fence) (currentIndex : Nat) (parts : List (List Char))
    (h : currentIndex ≤ i) : markdownLoop i checked fence currentIndex parts =
      (nth (markdownMarks fence parts) (i - currentIndex)).map fun k => parts.modify k (putTask checked) := by
  have hskip : ∀ (line : List Char) (parts : List (List Char)) (found : Option Nat),
      (found.map fun k => parts.modify k (putTask checked)).map (line :: ·) =
        (found.map (· + 1)).map fun k => (line :: parts).modify k (putTask checked) := by
    intro line parts found
    cases found <;> rfl
  induction parts generalizing fence currentIndex with
  | nil => rfl
  | cons line parts ih =>
    unfold markdownLoop markdownMarks
    split
    · rw [ih fence currentIndex h, hskip]
      rfl
    · cases hfence : matchFence line with
      | some found =>
        dsimp only
        rw [ih (nextFence fence found) currentIndex h, hskip]
        rfl
      | none =>
        dsimp only
        split
        · rw [ih fence currentIndex h, hskip]
          rfl
        · cases htask : matchTask line with
          | none =>
            dsimp only
            rw [ih fence currentIndex h, hskip]
            rfl
          | some task =>
            obtain ⟨start, mark, text⟩ := task
            dsimp only
            by_cases heq : currentIndex = i
            · have hput := (matchTask_putTask htask checked).1
              rw [if_pos heq, heq, Nat.sub_self, Option.map_some, nth, Option.map_some, List.modify_zero_cons, hput]
            · obtain ⟨n, hn⟩ : ∃ n, i - currentIndex = n + 1 := ⟨i - currentIndex - 1, by omega⟩
              have hnext : i - (currentIndex + 1) = n := by omega
              rw [if_neg heq, ih fence (currentIndex + 1) (by omega), hskip, hnext, hn, Option.map_some, nth]

theorem toggleMarkdownTaskItem_eq :
    toggleMarkdownTaskItem content i checked = markdownFormat.toggle content i checked := by
  rw [toggleMarkdownTaskItem, markdownLoop_eq i checked none 0 _ (Nat.zero_le i), Nat.sub_zero, Option.map_map]
  rfl

end AdWiki.Content
