import AdWiki.Content.ChecklistLens
import AdWiki.Lib.Prefixes
import AdWiki.Web.WikiLinks

/-!
# The task items that are shown

The browser numbers the task items of the syntax tree of a Markdown content, the server the task lines that it finds in
the text. Ticking off the item with a number changes the marker of the item shown exactly if both find the same ones as
far as items are shown.

* `toggle_counted`: the server writes the marker of the task line with the number.
* `numbered_visit`: the browser numbers the task items in document order.
* `toggled_shown_iff`: the contents in which the item shown is the one that is toggled.
-/

namespace AdWiki.Content

open Js Checklist Prefixes Web

variable {content line : List Char} {parts : List (List Char)} {fence : Option Fence} {checked : Bool} {i p q : Nat}

/-! ## The lines that the server counts -/

/-- Where the marks of the task lines outside of fences are in the text of the parts. -/
def countedMarks : Option Fence → List (List Char) → List Nat
  | _, [] => []
  | fence, line :: parts =>
    if isSeparator line then (countedMarks fence parts).map (· + line.length)
    else
      match matchFence line with
      | some found => (countedMarks (nextFence fence found) parts).map (· + line.length)
      | none =>
        if fence.isSome then (countedMarks fence parts).map (· + line.length)
        else
          match matchTask line with
          | none => (countedMarks fence parts).map (· + line.length)
          | some task => task.1.length :: (countedMarks fence parts).map (· + line.length)

def counted (content : List Char) : List Nat := countedMarks none (splitLines content)

theorem length_start {start text : List Char} {mark : Char} (h : matchTask line = some (start, mark, text)) :
    start.length < line.length := by
  obtain ⟨-, -, rfl⟩ := matchTask_eq_some.mp h
  rw [List.length_append, List.length_cons]
  omega

theorem markdownLoop_counted (checked : Bool) (fence : Option Fence) (currentIndex : Nat) (parts : List (List Char))
    (h : currentIndex ≤ i) :
    (markdownLoop i checked fence currentIndex parts).map List.flatten =
      (countedMarks fence parts)[i - currentIndex]?.map fun p => parts.flatten.set p (taskMark checked) := by
  -- a line that is passed over
  have hskip :
    ∀ (line : List Char) (parts : List (List Char)) (rest : Option (List (List Char))) (marks : List Nat) (n : Nat),
      rest.map List.flatten = marks[n]?.map (fun p => parts.flatten.set p (taskMark checked)) →
      (rest.map (line :: ·)).map List.flatten =
        (marks.map (· + line.length))[n]?.map fun p => (line :: parts).flatten.set p (taskMark checked) := by
    intro line parts rest marks n hrest
    have hset : ∀ p, (line ++ parts.flatten).set (p + line.length) (taskMark checked) = line ++
        parts.flatten.set p (taskMark checked) := by
      intro p
      rw [List.set_append_right _ _ (Nat.le_add_left _ _), Nat.add_sub_cancel]
    rw [Option.map_map, List.getElem?_map, Option.map_map]
    have hmap := congrArg (Option.map (line ++ ·)) hrest
    rw [Option.map_map, Option.map_map] at hmap
    simp only [Function.comp_def, List.flatten_cons, hset] at hmap ⊢
    exact hmap
  induction parts generalizing fence currentIndex with
  | nil => rfl
  | cons line parts ih =>
    unfold markdownLoop countedMarks
    split
    · exact hskip _ _ _ _ _ (ih fence currentIndex h)
    · cases hfence : matchFence line with
      | some found => exact hskip _ _ _ _ _ (ih (nextFence fence found) currentIndex h)
      | none =>
        dsimp only
        split
        · exact hskip _ _ _ _ _ (ih fence currentIndex h)
        · cases htask : matchTask line with
          | none => exact hskip _ _ _ _ _ (ih fence currentIndex h)
          | some task =>
            obtain ⟨start, mark, text⟩ := task
            obtain ⟨-, -, hline⟩ := matchTask_eq_some.mp htask
            dsimp only
            by_cases heq : currentIndex = i
            · rw [if_pos heq, heq, Nat.sub_self, List.getElem?_cons_zero, Option.map_some, Option.map_some,
                List.flatten_cons, List.flatten_cons, hline]
              simp
            · obtain ⟨n, hn⟩ : ∃ n, i - currentIndex = n + 1 := ⟨i - currentIndex - 1, by omega⟩
              have hnext : i - (currentIndex + 1) = n := by omega
              have hrest := ih fence (currentIndex + 1) (by omega)
              rw [hnext] at hrest
              rw [if_neg heq, hn, List.getElem?_cons_succ]
              exact hskip _ _ _ _ _ hrest

/-- Without task items in HTML, the mark of the task line with the number is written. -/
theorem toggle_counted (h : hasTaskItem (pieces 0 content) = false) (i : Nat) (checked : Bool) :
    toggleCheckboxInContent content i checked = (counted content)[i]?.map fun p => content.set p (taskMark checked) := by
  rw [toggle_markdown h, ← toggleMarkdownTaskItem_eq, toggleMarkdownTaskItem,
    markdownLoop_counted checked none 0 _ (Nat.zero_le i), Nat.sub_zero, (parts_splitLines content).2]
  rfl

theorem countedMarks_lt (h : p ∈ countedMarks fence parts) : p < parts.flatten.length := by
  induction parts generalizing fence p with
  | nil => cases h
  | cons line parts ih =>
    have hlater : ∀ {fence}, p ∈ (countedMarks fence parts).map (· + line.length) →
        p < (line :: parts).flatten.length := by
      intro fence hp
      obtain ⟨p', hp', rfl⟩ := List.mem_map.mp hp
      have hlt := ih hp'
      rw [List.flatten_cons, List.length_append]
      omega
    unfold countedMarks at h
    split at h
    · exact hlater h
    · split at h
      · exact hlater h
      · split at h
        · exact hlater h
        · split at h
          · exact hlater h
          · next task htask =>
            rcases List.mem_cons.mp h with rfl | h
            · have hlt := length_start htask
              rw [List.flatten_cons, List.length_append]
              omega
            · exact hlater h

theorem countedMarks_increasing (fence : Option Fence) (parts : List (List Char)) :
    (countedMarks fence parts).Pairwise (· < ·) := by
  induction parts generalizing fence with
  | nil => exact List.Pairwise.nil
  | cons line parts ih =>
    have hlater : ∀ fence, ((countedMarks fence parts).map (· + line.length)).Pairwise (· < ·) := by
      intro fence
      refine List.pairwise_map.mpr ((ih fence).imp fun hlt => ?_)
      omega
    unfold countedMarks
    split
    · exact hlater fence
    · split
      · exact hlater _
      · split
        · exact hlater fence
        · split
          · exact hlater fence
          · next task htask =>
            refine List.pairwise_cons.mpr ⟨fun p hp => ?_, hlater fence⟩
            obtain ⟨p', -, rfl⟩ := List.mem_map.mp hp
            have hlt := length_start htask
            omega

/-- The fence that is open behind the parts. -/
def fenceAfter : Option Fence → List (List Char) → Option Fence
  | fence, [] => fence
  | fence, line :: parts =>
    match if isSeparator line then none else matchFence line with
    | some found => fenceAfter (nextFence fence found) parts
    | none => fenceAfter fence parts

/-- The mark of a task line outside of fences is at this place. -/
def IsCounted (fence : Option Fence) (parts : List (List Char)) (p : Nat) : Prop := ∃ before line after start mark text,
  parts = before ++ line :: after ∧ fenceAfter fence before = none ∧ matchTask line = some (start, mark, text) ∧
    p = before.flatten.length + start.length

theorem isCounted_cons {fence' : Option Fence}
    (hfence : ∀ before, fenceAfter fence (line :: before) = fenceAfter fence' before) :
    IsCounted fence (line :: parts) p ↔ (fence = none ∧ ∃ task, matchTask line = some task ∧ p = task.1.length) ∨
      ∃ q, IsCounted fence' parts q ∧ q + line.length = p := by
  constructor
  · rintro ⟨before, line', after, start, mark, text, hparts, hopen, htask, rfl⟩
    cases before with
    | nil =>
      obtain ⟨rfl, rfl⟩ := List.cons.inj hparts
      exact .inl ⟨hopen, _, htask, Nat.zero_add _⟩
    | cons first before =>
      obtain ⟨rfl, rfl⟩ := List.cons.inj hparts
      refine .inr ⟨before.flatten.length + start.length,
        ⟨before, line', after, start, mark, text, rfl, (hfence before).symm.trans hopen, htask, rfl⟩, ?_⟩
      rw [List.flatten_cons, List.length_append]
      omega
  · rintro (⟨rfl, ⟨start, mark, text⟩, htask, rfl⟩ | ⟨q,
      ⟨before, line', after, start, mark, text, rfl, hopen, htask, rfl⟩, rfl⟩)
    · exact ⟨[], line, parts, start, mark, text, rfl, rfl, htask, (Nat.zero_add _).symm⟩
    · refine ⟨line :: before, line', after, start, mark, text, rfl, (hfence before).trans hopen, htask, ?_⟩
      rw [List.flatten_cons, List.length_append]
      omega

/-- A separator is no task line, and neither is a line that opens or closes a fence. -/
theorem matchTask_eq_none (h : isSeparator line = true ∨ matchFence line ≠ none) : matchTask line = none := by
  cases htask : matchTask line with
  | none => rfl
  | some task =>
    obtain ⟨hstart, -, hline⟩ := matchTask_eq_some.mp htask
    rw [hline, not_isSeparator_task hstart, matchFence_task hstart] at h
    rcases h with h | h
    · cases h
    · exact absurd rfl h

theorem mem_countedMarks : p ∈ countedMarks fence parts ↔ IsCounted fence parts p := by
  induction parts generalizing fence p with
  | nil =>
    refine iff_of_false List.not_mem_nil ?_
    rintro ⟨before, line, after, -, -, -, hparts, -⟩
    exact List.cons_ne_nil line after (List.append_eq_nil_iff.mp hparts.symm).2
  | cons line parts ih =>
    have hlater : ∀ fence', p ∈ (countedMarks fence' parts).map (· + line.length) ↔
        ∃ q, IsCounted fence' parts q ∧ q + line.length = p := by
      intro fence'
      rw [List.mem_map]
      exact exists_congr fun q => and_congr_left' ih
    -- a line that is passed over
    have hpass : ∀ fence', (∀ before, fenceAfter fence (line :: before) = fenceAfter fence' before) →
      (fence = none → matchTask line = none) →
        (p ∈ (countedMarks fence' parts).map (· + line.length) ↔ IsCounted fence (line :: parts) p) := by
      intro fence' hfence hnot
      rw [isCounted_cons hfence, hlater, or_iff_right]
      rintro ⟨hopen, task, htask, -⟩
      rw [hnot hopen] at htask
      cases htask
    cases hsep : isSeparator line with
    | true =>
      rw [countedMarks, hsep, if_pos rfl]
      refine hpass fence (fun before => ?_) fun _ => matchTask_eq_none (.inl hsep)
      rw [fenceAfter, hsep]
      rfl
    | false =>
      rw [countedMarks, hsep, if_neg Bool.false_ne_true]
      cases hfence : matchFence line with
      | some found =>
        refine hpass _ (fun before => ?_) fun _ => matchTask_eq_none (.inr ?_)
        · rw [fenceAfter, hsep, if_neg Bool.false_ne_true, hfence]
        · rw [hfence]
          exact Option.some_ne_none found
      | none =>
        have hafter : ∀ before, fenceAfter fence (line :: before) = fenceAfter fence before := by
          intro before
          rw [fenceAfter, hsep, if_neg Bool.false_ne_true, hfence]
        dsimp only
        cases fence with
        | some opened => exact hpass _ hafter fun hopen => absurd hopen (Option.some_ne_none opened)
        | none =>
          rw [Option.isSome_none, if_neg Bool.false_ne_true]
          cases htask : matchTask line with
          | none => exact hpass _ hafter fun _ => htask
          | some task =>
            dsimp only
            rw [isCounted_cons hafter, List.mem_cons, hlater, htask]
            refine or_congr_left ⟨fun heq => ⟨rfl, task, rfl, heq⟩, ?_⟩
            rintro ⟨-, task', htask', rfl⟩
            rw [Option.some.inj htask']

theorem counted_lt (h : p ∈ counted content) : p < content.length := by
  have hlt := countedMarks_lt h
  rwa [(parts_splitLines content).2] at hlt

theorem counted_increasing (content : List Char) : (counted content).Pairwise (· < ·) :=
  countedMarks_increasing none (splitLines content)

theorem mem_counted : p ∈ counted content ↔ IsCounted none (splitLines content) p := mem_countedMarks

/-! ## The items of the browser -/

inductive NodeType
  | listItem
  | other
  deriving DecidableEq, Repr

/-- A node without its children: `checkboxIndex` is its property `data-checkbox-index`, `text` what a list item says, and
`offset` where that begins. -/
structure NodeData where
  type : NodeType
  checked : Option Bool
  checkboxIndex : Option Nat
  offset : Nat
  text : List Char
  deriving DecidableEq, Repr

inductive MarkdownNode
  | mk (data : NodeData) (children : List MarkdownNode)

def NodeData.isTask (node : NodeData) : Bool := node.type = .listItem && node.checked.isSome

mutual
/-- The callback of `remarkCheckboxIndexes` with its counter. -/
def visit (checkboxIndex : Nat) : MarkdownNode → MarkdownNode × Nat
  | .mk data children =>
    if data.isTask then
      let visited := visitAll (checkboxIndex + 1) children
      (.mk { data with checkboxIndex := some checkboxIndex } visited.1, visited.2)
    else
      let visited := visitAll checkboxIndex children
      (.mk data visited.1, visited.2)

def visitAll (checkboxIndex : Nat) : List MarkdownNode → List MarkdownNode × Nat
  | [] => ([], checkboxIndex)
  | node :: nodes =>
    let visited := visit checkboxIndex node
    let others := visitAll visited.2 nodes
    (visited.1 :: others.1, others.2)
end

def remarkCheckboxIndexes (tree : MarkdownNode) : MarkdownNode := (visit 0 tree).1

mutual
/-- The nodes in the order of the document. -/
def nodes : MarkdownNode → List NodeData
  | .mk data children => data :: nodesOf children

def nodesOf : List MarkdownNode → List NodeData
  | [] => []
  | node :: others => nodes node ++ nodesOf others
end

def taskItems (tree : MarkdownNode) : List NodeData := (nodes tree).filter NodeData.isTask

def numberFrom (n : Nat) (items : List NodeData) : List NodeData :=
  items.mapIdx fun i item => { item with checkboxIndex := some (n + i) }

theorem numberFrom_append (n : Nat) (items others : List NodeData) :
    numberFrom n (items ++ others) = numberFrom n items ++ numberFrom (n + items.length) others := by
  have hplace : ∀ i, n + (i + items.length) = n + items.length + i := fun i => by omega
  rw [numberFrom, List.mapIdx_append]
  simp only [hplace]
  rfl

theorem numberFrom_cons (n : Nat) (item : NodeData) (items : List NodeData) :
    numberFrom n (item :: items) = { item with checkboxIndex := some n } :: numberFrom (n + 1) items :=
  numberFrom_append n [item] items

mutual
theorem filter_visit (n : Nat) (node : MarkdownNode) :
    (nodes (visit n node).1).filter NodeData.isTask = numberFrom n ((nodes node).filter NodeData.isTask) ∧
      (visit n node).2 = n + ((nodes node).filter NodeData.isTask).length := by
  obtain ⟨data, children⟩ := node
  rw [visit]
  split
  · next htask =>
    obtain ⟨hitems, hnext⟩ := filter_visitAll (n + 1) children
    have hnumbered : ({ data with checkboxIndex := some n } : NodeData).isTask = true := htask
    rw [nodes, nodes, List.filter_cons_of_pos htask, List.filter_cons_of_pos hnumbered, hitems, hnext, numberFrom_cons,
      List.length_cons]
    exact ⟨rfl, by omega⟩
  · next htask =>
    obtain ⟨hitems, hnext⟩ := filter_visitAll n children
    rw [nodes, nodes, List.filter_cons_of_neg htask, List.filter_cons_of_neg htask, hitems, hnext]
    exact ⟨rfl, rfl⟩

theorem filter_visitAll (n : Nat) (list : List MarkdownNode) :
    (nodesOf (visitAll n list).1).filter NodeData.isTask = numberFrom n ((nodesOf list).filter NodeData.isTask) ∧
      (visitAll n list).2 = n + ((nodesOf list).filter NodeData.isTask).length := by
  cases list with
  | nil => exact ⟨rfl, rfl⟩
  | cons node others =>
    obtain ⟨hitems, hnext⟩ := filter_visit n node
    obtain ⟨hothers, hlast⟩ := filter_visitAll (visit n node).2 others
    rw [visitAll, nodesOf, nodesOf, List.filter_append, List.filter_append, hitems, hothers, hlast, hnext,
      numberFrom_append, List.length_append]
    exact ⟨rfl, by omega⟩
end

/-- The task items are numbered in the order of the document. -/
theorem numbered_visit (tree : MarkdownNode) : taskItems (remarkCheckboxIndexes tree) = numberFrom 0 (taskItems tree) :=
  (filter_visit 0 tree).1

/-! ## Where the items are in the content -/

/-- What a match is replaced by, each character with the place that it has been kept from. -/
def replacedFrom (place : Nat) (matched : List Char) : Option (List Char) → List (Char × Option Nat)
  | some text => text.map fun c => (c, none)
  | none => matched.mapIdx fun i c => (c, some (place + i))

/-- `replaceLinks`, each character with the place that it has been kept from. -/
def replaceFrom (link : List Char → Option (List Char) → Option (List Char)) :
    Nat → Nat → List Char → List (Char × Option Nat)
  | _, _, [] => []
  | skip + 1, place, _ :: cs => replaceFrom link skip (place + 1) cs
  | 0, place, c :: cs =>
    match matchLink [] (c :: cs) with
    | none => (c, some place) :: replaceFrom link 0 (place + 1) cs
    | some (target, label, rest) =>
      replacedFrom place ((c :: cs).take (cs.length + 1 - rest.length)) (link target label) ++
        replaceFrom link (cs.length - rest.length) (place + 1) cs

def Later (a b : Char × Option Nat) : Prop := ∀ p ∈ a.2, ∀ q ∈ b.2, p < q

theorem replacedFrom_text (place : Nat) (matched : List Char) (text : Option (List Char)) :
    (replacedFrom place matched text).map Prod.fst = text.getD matched := by
  cases text with
  | some text =>
    rw [replacedFrom, List.map_map, Option.getD_some]
    exact List.map_id' text
  | none =>
    refine List.ext_getElem? fun i => ?_
    rw [replacedFrom, List.getElem?_map, List.getElem?_mapIdx, Option.map_map, Option.getD_none]
    exact Option.map_id'

theorem mem_replacedFrom {place : Nat} {matched : List Char} {text : Option (List Char)} {c : Char}
    (h : (c, some q) ∈ replacedFrom place matched text) : place ≤ q ∧ q < place + matched.length := by
  cases text with
  | some text =>
    obtain ⟨_, _, heq⟩ := List.mem_map.mp h
    cases heq
  | none =>
    obtain ⟨i, hi, heq⟩ := List.mem_mapIdx.mp h
    cases heq
    omega

theorem replacedFrom_later (place : Nat) (matched : List Char) (text : Option (List Char)) :
    (replacedFrom place matched text).Pairwise Later := by
  cases text with
  | some text =>
    refine List.pairwise_map.mpr (List.pairwise_of_forall fun _ _ p hp => ?_)
    cases hp
  | none =>
    refine List.pairwise_iff_getElem.mpr fun i j hi hj hlt p hp q hq => ?_
    simp only [replacedFrom, List.getElem_mapIdx, Option.mem_def, Option.some.injEq] at hp hq
    omega

section Rendering

variable {link : List Char → Option (List Char) → Option (List Char)}

theorem replaceFrom_text (skip place : Nat) (cs : List Char) :
    (replaceFrom link skip place cs).map Prod.fst = replaceLinks [] link skip cs := by
  induction cs generalizing skip place with
  | nil => cases skip <;> rfl
  | cons c cs ih =>
    cases skip with
    | succ skip => exact ih skip (place + 1)
    | zero =>
      rw [replaceFrom, replaceLinks]
      cases matchLink [] (c :: cs) with
      | none =>
        dsimp only
        rw [List.map_cons, ih]
      | some found =>
        dsimp only
        rw [List.map_append, replacedFrom_text, ih]

theorem mem_replaceFrom {skip place : Nat} {cs : List Char} {c : Char}
    (h : (c, some q) ∈ replaceFrom link skip place cs) :
    place + skip ≤ q ∧ q < place + cs.length := by
  induction cs generalizing skip place with
  | nil => cases skip <;> cases h
  | cons d cs ih =>
    rw [List.length_cons]
    cases skip with
    | succ skip =>
      have hbounds : place + 1 + skip ≤ q ∧ q < place + 1 + cs.length := ih h
      omega
    | zero =>
      rw [replaceFrom] at h
      split at h
      · rcases List.mem_cons.mp h with heq | h
        · cases heq
          omega
        · have hbounds := ih h
          omega
      · rcases List.mem_append.mp h with h | h
        · have hbounds := mem_replacedFrom h
          rw [List.length_take, List.length_cons] at hbounds
          omega
        · have hbounds := ih h
          omega

/-- The characters that are kept stay in order. -/
theorem replaceFrom_later (skip place : Nat) (cs : List Char) : (replaceFrom link skip place cs).Pairwise Later := by
  induction cs generalizing skip place with
  | nil => cases skip <;> exact List.Pairwise.nil
  | cons c cs ih =>
    cases skip with
    | succ skip => exact ih skip (place + 1)
    | zero =>
      rw [replaceFrom]
      split
      · refine List.pairwise_cons.mpr ⟨?_, ih 0 (place + 1)⟩
        rintro ⟨d, origin⟩ hd p hp q hq
        obtain rfl := Option.some.inj hp
        obtain rfl : origin = some q := hq
        have hbounds := mem_replaceFrom hd
        omega
      · refine List.pairwise_append.mpr ⟨replacedFrom_later _ _ _, ih _ (place + 1), ?_⟩
        rintro ⟨a, p'⟩ ha ⟨b, q'⟩ hb p hp q hq
        obtain rfl : p' = some p := hp
        obtain rfl : q' = some q := hq
        have hlt := (mem_replacedFrom ha).2
        have hbounds := mem_replaceFrom hb
        rw [List.length_take] at hlt
        omega

end Rendering

/-- `[ ]`, `[x]` or `[X]`, white space, and further text. -/
def beginsTask : List Char → Bool
  | '[' :: mark :: ']' :: c :: rest => " xX".toList.contains mark && isSpace c && rest.any fun d => !isSpace d
  | _ => false

/-- What the parser with `remark-gfm` is relied on for. -/
structure IsGfm (parse : String → MarkdownNode) : Prop where
  checked : ∀ text, ∀ node ∈ nodes (parse text), node.type = .listItem →
    (node.checked.isSome = true ↔ beginsTask node.text = true)
  placed : ∀ text, ∀ node ∈ taskItems (parse text), (text.toList.drop node.offset).take 3 = node.text.take 3
  ordered : ∀ text, (taskItems (parse text)).Pairwise (·.offset < ·.offset)

section Shown

variable (normalizeNFD toLowerCase : String → String) (parse : String → MarkdownNode)

/-- The tree that `MarkdownView` renders. -/
def markdownView (content : List Char) : MarkdownNode :=
  remarkCheckboxIndexes (parse (wikiLinkMarkdown normalizeNFD toLowerCase (String.ofList content)))

/-- The place in the content that the mark of an item comes from. -/
def markOf (content : List Char) (item : NodeData) : Option Nat :=
  (replaceFrom (markdownLink normalizeNFD toLowerCase) 0 0 content)[item.offset + 1]?.bind Prod.snd

/-- Toggling the item with the number writes the mark of this item. -/
def Toggles (content : List Char) (i : Nat) (item : NodeData) : Prop :=
  ∃ p, markOf normalizeNFD toLowerCase content item = some p ∧
  ∀ checked, toggleCheckboxInContent content i checked = some (content.set p (taskMark checked))

def TogglesShown (content : List Char) : Prop :=
  ∀ i < (taskItems (markdownView normalizeNFD toLowerCase parse content)).length,
  ∃ item, (taskItems (markdownView normalizeNFD toLowerCase parse content))[i]? = some item ∧
    item.checkboxIndex = some i ∧
    Toggles normalizeNFD toLowerCase content i item

/-- A list item that is shown with text that begins with a box, the mark of which comes from this place. -/
def ShownAt (content : List Char) (mark : Option Nat) : Prop :=
  ∃ item ∈ nodes (parse (wikiLinkMarkdown normalizeNFD toLowerCase (String.ofList content))), item.type = .listItem ∧
    beginsTask item.text = true ∧
    markOf normalizeNFD toLowerCase content item = mark

/-- Each item that is shown is a task line outside of fences, and so is no line before it that is not shown. -/
structure SameTasks (content : List Char) : Prop where
  counted : ∀ mark, ShownAt normalizeNFD toLowerCase parse content mark →
    ∃ p, mark = some p ∧ IsCounted none (splitLines content) p
  shown : ∀ p q, IsCounted none (splitLines content) p → ShownAt normalizeNFD toLowerCase parse content (some q) → p < q →
    ShownAt normalizeNFD toLowerCase parse content (some p)

end Shown

variable {normalizeNFD toLowerCase : String → String} {parse : String → MarkdownNode} {item : NodeData}

theorem set_taskMark_inj (hp : p < content.length)
    (h : ∀ checked, content.set p (taskMark checked) = content.set q (taskMark checked)) : p = q := by
  by_contra hne
  have hmark : ∀ checked, content[p]? = some (taskMark checked) := by
    intro checked
    have hget : (content.set p (taskMark checked))[p]? = (content.set q (taskMark checked))[p]? := by rw [h checked]
    rw [List.getElem?_set_self hp, List.getElem?_set_ne (Ne.symm hne)] at hget
    exact hget.symm
  have hsame := (hmark true).symm.trans (hmark false)
  exact absurd (Option.some.inj hsame) (by decide)

theorem toggles_iff (hhtml : hasTaskItem (pieces 0 content) = false) : Toggles normalizeNFD toLowerCase content i item ↔
    ∃ p, markOf normalizeNFD toLowerCase content item = some p ∧ (counted content)[i]? = some p := by
  refine exists_congr fun p => and_congr_right fun hmark => ?_
  simp only [toggle_counted hhtml]
  constructor
  · intro hwritten
    obtain ⟨q, hq, -⟩ := Option.map_eq_some_iff.mp (hwritten true)
    have hsame : q = p := by
      refine set_taskMark_inj (counted_lt (List.mem_of_getElem? hq)) fun checked => ?_
      have hset := hwritten checked
      rw [hq] at hset
      exact Option.some.inj hset
    rw [hq, hsame]
  · intro hp checked
    rw [hp, Option.map_some]

/-- The marks of items that come one after the other in the rendered text. -/
theorem marks_increasing {items : List NodeData} (h : items.Pairwise (·.offset < ·.offset)) :
    (items.filterMap (markOf normalizeNFD toLowerCase content)).Pairwise (· < ·) := by
  refine List.pairwise_filterMap.mpr (h.imp fun {a b} hlt p hp q hq => ?_)
  obtain ⟨x, hx, hxp⟩ := Option.bind_eq_some_iff.mp hp
  obtain ⟨y, hy, hyq⟩ := Option.bind_eq_some_iff.mp hq
  obtain ⟨ha, rfl⟩ := List.getElem?_eq_some_iff.mp hx
  obtain ⟨hb, rfl⟩ := List.getElem?_eq_some_iff.mp hy
  exact List.pairwise_iff_getElem.mp (replaceFrom_later 0 0 content) _ _ ha hb (Nat.succ_lt_succ hlt) p hxp q hyq

theorem isTask_iff (hgfm : IsGfm parse) {text : String} (hitem : item ∈ nodes (parse text)) :
    item.isTask = true ↔ item.type = .listItem ∧ beginsTask item.text = true := by
  rw [NodeData.isTask, Bool.and_eq_true, decide_eq_true_eq]
  exact and_congr_right fun htype => hgfm.checked text item hitem htype

theorem shownAt_iff (hgfm : IsGfm parse) {mark : Option Nat} : ShownAt normalizeNFD toLowerCase parse content mark ↔
    ∃ item ∈ taskItems (parse (wikiLinkMarkdown normalizeNFD toLowerCase (String.ofList content))),
      markOf normalizeNFD toLowerCase content item = mark := by
  constructor
  · rintro ⟨item, hitem, htype, htext, hmark⟩
    exact ⟨item, List.mem_filter.mpr ⟨hitem, (isTask_iff hgfm hitem).mpr ⟨htype, htext⟩⟩, hmark⟩
  · rintro ⟨item, hitem, hmark⟩
    obtain ⟨hitem, htask⟩ := List.mem_filter.mp hitem
    obtain ⟨htype, htext⟩ := (isTask_iff hgfm hitem).mp htask
    exact ⟨item, hitem, htype, htext, hmark⟩

theorem togglesShown_iff (hhtml : hasTaskItem (pieces 0 content) = false) :
    TogglesShown normalizeNFD toLowerCase parse content ↔
    ∀ (i : Nat) (item : NodeData),
      (taskItems (parse (wikiLinkMarkdown normalizeNFD toLowerCase (String.ofList content))))[i]? = some item →
      ∃ p, markOf normalizeNFD toLowerCase content item = some p ∧ (counted content)[i]? = some p := by
  simp only [TogglesShown, markdownView, numbered_visit, numberFrom, List.length_mapIdx, List.getElem?_mapIdx,
    toggles_iff hhtml]
  constructor
  · intro h i item hitem
    obtain ⟨hlt, -⟩ := List.getElem?_eq_some_iff.mp hitem
    obtain ⟨numbered, hnumbered, -, hmark⟩ := h i hlt
    rw [hitem] at hnumbered
    obtain rfl := Option.some.inj hnumbered
    exact hmark
  · intro h i hlt
    have hitem := List.getElem?_eq_getElem hlt
    refine ⟨_, congrArg (Option.map _) hitem, congrArg some (Nat.zero_add i), ?_⟩
    exact h i (taskItems _)[i] hitem

theorem toggled_shown_iff (hgfm : IsGfm parse) (hhtml : hasTaskItem (pieces 0 content) = false) :
    TogglesShown normalizeNFD toLowerCase parse content ↔ SameTasks normalizeNFD toLowerCase parse content := by
  have hshown : ∀ p, p ∈ (taskItems (parse (wikiLinkMarkdown normalizeNFD toLowerCase (String.ofList content)))).filterMap
      (markOf normalizeNFD toLowerCase content) ↔ ShownAt normalizeNFD toLowerCase parse content (some p) := by
    intro p
    rw [List.mem_filterMap, shownAt_iff hgfm]
  rw [togglesShown_iff hhtml, filterMap_isPrefix_iff,
    isPrefix_iff (counted_increasing content) (marks_increasing (hgfm.ordered _))]
  constructor
  · rintro ⟨hall, hsubset, hbefore⟩
    refine ⟨fun mark hmark => ?_, fun p q hp hq hlt => ?_⟩
    · obtain ⟨item, hitem, hitemMark⟩ := (shownAt_iff hgfm).mp hmark
      obtain ⟨p, hp⟩ := hall item hitem
      obtain rfl := hitemMark.symm.trans hp
      exact ⟨p, rfl, mem_counted.mp (hsubset p ((hshown p).mpr hmark))⟩
    · exact (hshown p).mp (hbefore p (mem_counted.mpr hp) q ((hshown q).mpr hq) hlt)
  · rintro ⟨hcounted, hbefore⟩
    refine ⟨fun item hitem => ?_, fun p hp => ?_, fun p hp q hq hlt => ?_⟩
    · obtain ⟨p, hp, -⟩ := hcounted _ ((shownAt_iff hgfm).mpr ⟨item, hitem, rfl⟩)
      exact ⟨p, hp⟩
    · obtain ⟨p', hp', hmark⟩ := hcounted _ ((hshown p).mp hp)
      obtain rfl := Option.some.inj hp'
      exact mem_counted.mpr hmark
    · exact (hshown p).mpr (hbefore p q (mem_counted.mp hp) ((hshown q).mp hq) hlt)

/-! ## Two lists -/

def bulleted : String := "- [ ] a\n- [x] b"

def mixed : String := "1. [ ] a\n- [ ] b"

def shownItem (checked : Bool) (offset : Nat) (text : String) : MarkdownNode :=
  .mk ⟨.listItem, some checked, none, offset, text.toList⟩ [.mk ⟨.other, none, none, offset, text.toList⟩ []]

def demoParse (text : String) : MarkdownNode :=
  .mk ⟨.other, none, none, 0, []⟩
    (if text = bulleted then [.mk ⟨.other, none, none, 0, []⟩ [shownItem false 2 "[ ] a", shownItem true 10 "[x] b"]]
    else if text = mixed then
      [.mk ⟨.other, none, none, 0, []⟩ [shownItem false 3 "[ ] a"],
        .mk ⟨.other, none, none, 9, []⟩ [shownItem false 11 "[ ] b"]]
    else [])

theorem demoParse_cases (text : String) :
    text = bulleted ∨ text = mixed ∨ demoParse text = .mk ⟨.other, none, none, 0, []⟩ [] := by
  by_cases hb : text = bulleted
  · exact .inl hb
  · by_cases hm : text = mixed
    · exact .inr (.inl hm)
    · exact .inr (.inr (by rw [demoParse, if_neg hb, if_neg hm]))

theorem isGfm_demo : IsGfm demoParse where
  checked text := by
    rcases demoParse_cases text with rfl | rfl | hempty
    · decide +kernel
    · decide +kernel
    · rw [hempty]
      decide
  placed text := by
    rcases demoParse_cases text with rfl | rfl | hempty
    · decide +kernel
    · decide +kernel
    · rw [hempty]
      exact fun node hnode => absurd hnode List.not_mem_nil
  ordered text := by
    rcases demoParse_cases text with rfl | rfl | hempty
    · decide +kernel
    · decide +kernel
    · rw [hempty]
      exact List.Pairwise.nil

theorem togglesShown_bulleted : TogglesShown id id demoParse bulleted.toList := by
  have htoggles : ∀ i < 2, ∀ checked, toggleCheckboxInContent bulleted.toList i checked =
      some (bulleted.toList.set (8 * i + 3) (taskMark checked)) := by decide +kernel
  have hitems :
    ∀ i < 2, ∃ item ∈ (taskItems (markdownView id id demoParse bulleted.toList))[i]?, item.checkboxIndex = some i ∧
      markOf id id bulleted.toList item = some (8 * i + 3) := by decide +kernel
  have hlength : (taskItems (markdownView id id demoParse bulleted.toList)).length = 2 := by decide +kernel
  intro i hi
  rw [hlength] at hi
  obtain ⟨item, hitem, hindex, hmark⟩ := hitems i hi
  exact ⟨item, hitem, hindex, _, hmark, htoggles i hi⟩

theorem toggled_shown_iff_bulleted : SameTasks id id demoParse bulleted.toList :=
  (toggled_shown_iff isGfm_demo (by decide +kernel)).mp togglesShown_bulleted

/-- The item of the numbered list is shown first, and the other one is ticked off. -/
theorem numbered_list : IsGfm demoParse ∧ hasTaskItem (pieces 0 mixed.toList) = false ∧
    toggleCheckboxInContent mixed.toList 0 true = some "1. [ ] a\n- [x] b".toList ∧
      ¬TogglesShown id id demoParse mixed.toList := by
  refine ⟨isGfm_demo, by decide +kernel, by decide +kernel, fun h => ?_⟩
  obtain ⟨item, hitem, -, p, hmark, hwritten⟩ := h 0 (by decide +kernel)
  have hfirst : ∀ item ∈ (taskItems (markdownView id id demoParse mixed.toList))[0]?,
    markOf id id mixed.toList item = some 4 := by decide +kernel
  obtain rfl : 4 = p := Option.some.inj ((hfirst item hitem).symm.trans hmark)
  have hother :
    toggleCheckboxInContent mixed.toList 0 true ≠ some (mixed.toList.set 4 (taskMark true)) := by decide +kernel
  exact hother (hwritten true)

end AdWiki.Content
