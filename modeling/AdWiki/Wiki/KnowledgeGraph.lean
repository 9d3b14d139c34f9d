import AdWiki.Access.Readable
import AdWiki.Lib.Arborescence
import AdWiki.Standards.Standard

/-!
# The knowledge graph

`PagesService.findGraph` collects what the user may read of the wiki pages, the notes and the standards with their
categories, and links every node to one above it. The order of the rows of each query is that of the data store.

* `closeFolders_closed`: the loop that collects the folders above the visible pages ends with a set that is closed.
* `findGraph_wellFormed`: every graph is a tree of its nodes with further links between them.
-/

namespace AdWiki.Wiki

open Access Fallible Relation

/-- The columns of a note that the access rules do not read. -/
structure NoteColumns where
  content : String
  mcpVisible : Bool
  deletedAt : Option Time
  deriving DecidableEq, Repr

/-- The columns of a standard that the access rules do not read. -/
structure GraphStandardColumns where
  slug : String
  status : Standards.StandardStatus
  mcpVisible : Bool
  deriving DecidableEq, Repr

/-- The tables; the further columns of a row are found by its id. -/
structure GraphStore where
  db : Database
  noteColumns : String → NoteColumns
  standardColumns : String → GraphStandardColumns
  pageLinks : Table PageLink.key
  standardPages : Table StandardPageLink.key

inductive NodeType
  | root
  | wiki
  | noteRoot
  | standardRoot
  | category
  | folder
  | page
  | noteCategory
  | note
  | standardCategory
  | standard
  deriving DecidableEq, Repr

inductive LinkKind
  | structural
  | standard
  | wiki
  deriving DecidableEq, Repr

structure GraphNode where
  id : String
  title : String
  slug : String
  type : NodeType
  mcpVisible : Bool
  group : String
  deriving DecidableEq, Repr

structure GraphLink where
  sourceId : String
  targetId : String
  kind : LinkKind
  deriving DecidableEq, Repr

structure KnowledgeGraph where
  nodes : List GraphNode
  links : List GraphLink
  deriving DecidableEq, Repr

def KnowledgeGraph.ids (graph : KnowledgeGraph) : List String := graph.nodes.map GraphNode.id

/-- The links of the tree, as pairs of a parent and a child. -/
def KnowledgeGraph.structureLinks (graph : KnowledgeGraph) : List (String × String) :=
  (graph.links.filter fun link => link.kind == .structural).map fun link => (link.sourceId, link.targetId)

def knowledgeRoot : String := "knowledge-root"
def wikiRoot : String := "wiki-root"
def notesRoot : String := "notes-root"
def standardsRoot : String := "standards-root"

/-! ## What is read -/

section Queries

variable (order : RowOrder) (store : GraphStore) (user : AuthenticatedUser)

/-- The rows of a query that the user may read. -/
def readableRows {α : Type} (resource : Resource) (type : TargetType) (key : α → String) (rows : List α) :
    Except HttpError (List α) := do
  let allowed ← store.db.allowedTargetIds order user ⟨resource, .read, type, rows.map key⟩
  pure (rows.filter fun row => allowed.contains (key row))

def readablePages : Except HttpError (List Page) :=
  readableRows order store user .pages .page Page.id
    (store.db.knowledge.pages.findMany order fun page => page.deletedAt.isNone)

/-- The categories of a scope; none where the user may not read the entries of the scope at all. -/
def readableCategories (permitted : Bool) (scope : KnowledgeKind) : Except HttpError (List Category) :=
  readableRows order store user .categories .category Category.id
    (if permitted then store.db.knowledge.categories.findMany order fun category => category.scope == scope else [])

def readableNotes (permitted mcpOnly : Bool) : Except HttpError (List Note) :=
  readableRows order store user .notes .note Note.id
    (if permitted then store.db.knowledge.notes.findMany order fun note =>
        (store.noteColumns note.id).deletedAt.isNone && (!mcpOnly || (store.noteColumns note.id).mcpVisible) &&
        (note.spaceId.isSome || note.ownerId == user.id ||
          store.db.knowledge.noteShares.rows.any fun share => share.noteId == note.id && share.userId == user.id)
      else [])

def readableStandards (permitted mcpOnly : Bool) : Except HttpError (List Standard) :=
  readableRows order store user .standards .standard Standard.id
    (if permitted then store.db.knowledge.standards.findMany order fun standard =>
        !mcpOnly || (store.standardColumns standard.id).status == .active &&
          (store.standardColumns standard.id).mcpVisible
      else [])

end Queries

/-! ## The folders above the visible pages -/

/-- One pass of the loop: the parents of the folders that are in the set. -/
def addParents (pages : List Page) (ids : List String) : List String :=
  pages.foldl
    (fun ids page =>
      match page.parentId with
      | none => ids
      | some parentId =>
        if page.type = .folder ∧ ids.contains page.id ∧ parentId ≠ "" ∧ ¬ids.contains parentId then
          ids ++ [parentId] else ids)
    ids

/-- `while (addedParent)`, the number bounding the passes. -/
def closeFolders (pages : List Page) : Nat → List String → List String
  | 0, ids => ids
  | n + 1, ids =>
    let next := addParents pages ids
    if next = ids then ids else closeFolders pages n next

/-- The rows of which the parent is not in the set yet. -/
def missingParents (pages : List Page) (ids : List String) : Nat :=
  pages.countP fun page => page.parentId.any fun parentId => !ids.contains parentId

theorem missingParents_append_lt {pages : List Page} {ids : List String} {page : Page} {parentId : String}
    (hpage : page ∈ pages) (hparent : page.parentId = some parentId) (hnew : parentId ∉ ids) :
    missingParents pages (ids ++ [parentId]) < missingParents pages ids := by
  have hle : ∀ p : Page, (p.parentId.any fun y => !(ids ++ [parentId]).contains y) = true →
      (p.parentId.any fun y => !ids.contains y) = true := by
    intro p
    cases p.parentId with
    | none => simp
    | some y => simp +contextual
  obtain ⟨pre, post, rfl⟩ := List.append_of_mem hpage
  have hpre := List.countP_mono_left fun p (_ : p ∈ pre) => hle p
  have hpost := List.countP_mono_left fun p (_ : p ∈ post) => hle p
  have hself : (page.parentId.any fun y => !(ids ++ [parentId]).contains y) = false := by simp [hparent]
  have hself' : (page.parentId.any fun y => !ids.contains y) = true := by simp [hparent, hnew]
  unfold missingParents
  rw [List.countP_append, List.countP_append, List.countP_cons, List.countP_cons, hself, hself']
  simp only [Bool.false_eq_true, if_false, if_true]
  omega

/-- A pass adds nothing, or fewer parents are missing after it. -/
theorem addParents_cases (pages : List Page) (ids : List String) :
    addParents pages ids = ids ∨ missingParents pages (addParents pages ids) < missingParents pages ids := by
  suffices hsub : ∀ l, (∀ p ∈ l, p ∈ pages) → ∀ start, addParents l start = start ∨
      missingParents pages (addParents l start) < missingParents pages start from hsub pages (fun _ hp => hp) ids
  intro l
  induction l with
  | nil => exact fun _ start => Or.inl rfl
  | cons page l ih =>
    intro hl start
    have hrest := ih fun p hp => hl p (List.mem_cons_of_mem _ hp)
    unfold addParents at hrest ⊢
    rw [List.foldl_cons]
    cases hparent : page.parentId with
    | none => exact hrest start
    | some parentId =>
      dsimp only
      split
      · next hadds =>
        have hnew : parentId ∉ start := by simpa using hadds.2.2.2
        have hless := missingParents_append_lt (hl page List.mem_cons_self) hparent hnew
        rcases hrest (start ++ [parentId]) with hsame | hfewer
        · rw [hsame]
          exact Or.inr hless
        · exact Or.inr (hfewer.trans hless)
      · exact hrest start

/-- The loop ends: a further pass adds nothing. -/
theorem closeFolders_closed {pages : List Page} : ∀ (n : Nat) (ids : List String), missingParents pages ids < n →
    addParents pages (closeFolders pages n ids) = closeFolders pages n ids
  | n + 1, ids, h => by
    unfold closeFolders
    dsimp only
    split
    · assumption
    · next hchanged =>
      have hfewer := (addParents_cases pages ids).resolve_left hchanged
      exact closeFolders_closed n _ (by omega)

/-- As many passes as there are pages, and one, are enough. -/
theorem closeFolders_length (pages : List Page) (ids : List String) :
    addParents pages (closeFolders pages (pages.length + 1) ids) = closeFolders pages (pages.length + 1) ids :=
  closeFolders_closed _ _ (Nat.lt_succ_of_le List.countP_le_length)

/-! ## The graph of the rows -/

/-- `id && ids.has(id)`, and then the id, otherwise something else. -/
def parentAmong (ids : List String) (id : Option String) (otherwise : String) : String :=
  match id with
  | none => otherwise
  | some id => if id ≠ "" ∧ ids.contains id then id else otherwise

/-- The name of the category of a row, if the user sees it. -/
def groupOf (categories : List Category) (categoryId : Option String) (otherwise : String) : String :=
  match categoryId with
  | none => otherwise
  | some id => if id = "" then otherwise else ((Table.index Category.id categories).get? id).elim otherwise Category.name

/-- `content.split(/\r?\n/)[0]`. -/
def firstLine : List Char → List Char
  | [] => []
  | '\n' :: _ => []
  | '\r' :: '\n' :: _ => []
  | c :: cs => c :: firstLine cs

def noteTitle (note : Note) (content : String) : String :=
  let title := (note.title.map Js.trim).getD ""
  let line := Js.slice 80 (String.ofList (firstLine content.toList))
  if title ≠ "" then title else if line ≠ "" then line else "Unbenannte Notiz"

def structureLink (sourceId targetId : String) : GraphLink := ⟨sourceId, targetId, .structural⟩

def rootNode (id title : String) (type : NodeType) (group : String) : GraphNode := ⟨id, title, "", type, false, group⟩

def categoryNode (type : NodeType) (category : Category) : GraphNode :=
  ⟨category.id, category.name, category.slug, type, false, category.name⟩

def nonEmpty (id : Option String) : Option String := id.filter fun id => id != ""

/-- What is below the root of the notes, or of the standards: its categories and its entries. -/
structure Branch where
  permitted : Bool
  entries : List (String × Option String)
  allCategories : List Category

namespace Branch

variable (b : Branch) (mcpOnly : Bool)

/-- Is there a node for the branch? -/
def included : Bool := b.permitted && (!mcpOnly || !b.entries.isEmpty)

def categories : List Category :=
  if mcpOnly then
    b.allCategories.filter fun category => (b.entries.filterMap fun entry => nonEmpty entry.2).contains category.id
  else b.allCategories

/-- The parent of an entry: its category, or the root of the branch. -/
def parent (root : String) (entry : String × Option String) : String :=
  parentAmong ((b.categories mcpOnly).map Category.id) entry.2 root

end Branch

def noteBranch (permitted : Bool) (notes : List Note) (categories : List Category) : Branch :=
  ⟨permitted, notes.map fun note => (note.id, note.categoryId), categories⟩

def standardBranch (permitted : Bool) (standards : List Standard) (categories : List Category) : Branch :=
  ⟨permitted, standards.map fun standard => (standard.id, standard.categoryId), categories⟩

/-- The pages of the graph, and their categories. -/
structure WikiBranch where
  pages : List Page
  categories : List Category

namespace WikiBranch

variable (w : WikiBranch) (mcpOnly : Bool)

def contentPages : List Page := w.pages.filter fun page => page.type == .page && (!mcpOnly || page.mcpVisible)

def contentIds : List String := (w.contentPages mcpOnly).map Page.id

def relevantFolderIds : List String :=
  if mcpOnly then
    closeFolders w.pages (w.pages.length + 1)
      (Js.distinct ((w.contentPages mcpOnly).filterMap fun page => nonEmpty page.parentId))
  else []

def relevantPages : List Page :=
  if mcpOnly then
    w.pages.filter fun page => (w.contentIds mcpOnly).contains page.id || (w.relevantFolderIds mcpOnly).contains page.id
  else w.pages

def relevantCategories : List Category :=
  if mcpOnly then
    w.categories.filter fun category =>
      ((w.relevantPages mcpOnly).filterMap fun page => nonEmpty page.categoryId).contains category.id
  else w.categories

/-- The parent of a page: its parent folder, its category, or the root of the wiki. -/
def parent (page : Page) : String :=
  parentAmong ((w.relevantPages mcpOnly).map Page.id) page.parentId
    (parentAmong ((w.relevantCategories mcpOnly).map Category.id) page.categoryId wikiRoot)

end WikiBranch

section Assemble

variable (store : GraphStore) (mcpOnly : Bool) (w : WikiBranch) (notes : List Note) (standards : List Standard)
  (noteBranch standardBranch : Branch)

def pageNode (page : Page) : GraphNode where
  id := page.id
  title := page.title
  slug := page.slug
  type := match page.type with
    | .folder => .folder
    | .page => .page
  mcpVisible := page.mcpVisible
  group := groupOf w.categories page.categoryId "Uncategorized"

def noteNode (note : Note) : GraphNode where
  id := note.id
  title := noteTitle note (store.noteColumns note.id).content
  slug := note.id
  type := .note
  mcpVisible := (store.noteColumns note.id).mcpVisible
  group := groupOf (noteBranch.categories mcpOnly) note.categoryId "Notizen"

def standardNode (standard : Standard) : GraphNode where
  id := standard.id
  title := standard.title
  slug := (store.standardColumns standard.id).slug
  type := .standard
  mcpVisible := (store.standardColumns standard.id).mcpVisible
  group := groupOf (standardBranch.categories mcpOnly) standard.categoryId "Richtlinien"

/-- The nodes below the two roots that are always there. -/
def branchRoot (included : Bool) (node : GraphNode) : List GraphNode := if included then [node] else []

def graphNodes : List GraphNode :=
  [rootNode knowledgeRoot "AD-Wiki Knowledge" .root "Knowledge", rootNode wikiRoot "Wiki" .wiki "Wiki"] ++
  branchRoot (noteBranch.included mcpOnly) (rootNode notesRoot "Notizen" .noteRoot "Notizen") ++
  branchRoot (standardBranch.included mcpOnly) (rootNode standardsRoot "Richtlinien" .standardRoot "Richtlinien") ++
  (w.relevantCategories mcpOnly).map (categoryNode .category) ++
  (w.relevantPages mcpOnly).map (pageNode w) ++
  (noteBranch.categories mcpOnly).map (categoryNode .noteCategory) ++
  notes.map (noteNode store mcpOnly noteBranch) ++
  (standardBranch.categories mcpOnly).map (categoryNode .standardCategory) ++
  standards.map (standardNode store mcpOnly standardBranch)

/-- The links that make the tree. -/
def treeLinks : List GraphLink :=
  [structureLink knowledgeRoot wikiRoot] ++
  (if noteBranch.included mcpOnly then [structureLink knowledgeRoot notesRoot] else []) ++
  (if standardBranch.included mcpOnly then [structureLink knowledgeRoot standardsRoot] else []) ++
  (w.relevantCategories mcpOnly).map (fun category => structureLink wikiRoot category.id) ++
  (w.relevantPages mcpOnly).map (fun page => structureLink (w.parent mcpOnly page) page.id) ++
  (noteBranch.categories mcpOnly).map (fun category => structureLink notesRoot category.id) ++
  noteBranch.entries.map (fun entry => structureLink (noteBranch.parent mcpOnly notesRoot entry) entry.1) ++
  (standardBranch.categories mcpOnly).map (fun category => structureLink standardsRoot category.id) ++
  standardBranch.entries.map (fun entry => structureLink (standardBranch.parent mcpOnly standardsRoot entry) entry.1)

/-- The links of the standards to their pages. -/
def standardLinks : List GraphLink :=
  standards.flatMap fun standard =>
    ((store.standardPages.rows.filter fun link => link.standardId == standard.id &&
      ((w.relevantPages mcpOnly).map Page.id).contains link.pageId).map fun link => ⟨standard.id, link.pageId, .standard⟩)

/-- The links in the texts of the pages. -/
def wikiLinks : List GraphLink :=
  (store.pageLinks.rows.filter fun link => (w.contentIds mcpOnly).contains link.sourceId &&
    (w.contentIds mcpOnly).contains link.targetId).map fun link => ⟨link.sourceId, link.targetId, .wiki⟩

end Assemble

def findGraph (order : RowOrder) (store : GraphStore) (user : AuthenticatedUser) (mcpOnly : Bool) :
    Except HttpError KnowledgeGraph := do
  let pages ← readablePages order store user
  let categories ← readableCategories order store user true .wiki
  let canReadNotes := store.db.directory.isAllowed user ⟨.notes, .read⟩
  let notes ← readableNotes order store user canReadNotes mcpOnly
  let allNoteCategories ← readableCategories order store user canReadNotes .note
  let canReadStandards := store.db.directory.isAllowed user ⟨.standards, .read⟩
  let standards ← readableStandards order store user canReadStandards mcpOnly
  let allStandardCategories ← readableCategories order store user canReadStandards .standard
  let w : WikiBranch := ⟨pages, categories⟩
  let notesBelow := noteBranch canReadNotes notes allNoteCategories
  let standardsBelow := standardBranch canReadStandards standards allStandardCategories
  pure
    { nodes := graphNodes store mcpOnly w notes standards notesBelow standardsBelow
      links := treeLinks mcpOnly w notesBelow standardsBelow ++ standardLinks store mcpOnly w standards ++
        wikiLinks store mcpOnly w }

/-! ## Ids and levels -/

/-- The ids of the rows are unique across the tables, and none of them is that of a root. -/
structure GraphIds (kb : KnowledgeBase) : Prop where
  categories : ∀ category ∈ kb.categories, category.id ∉ [knowledgeRoot, wikiRoot, notesRoot, standardsRoot]
  pages : ∀ page ∈ kb.pages, page.id ∉ [knowledgeRoot, wikiRoot, notesRoot, standardsRoot] ∧
    kb.categories.find page.id = none
  notes : ∀ note ∈ kb.notes, note.id ∉ [knowledgeRoot, wikiRoot, notesRoot, standardsRoot] ∧
    kb.categories.find note.id = none ∧ kb.pages.find note.id = none
  standards : ∀ standard ∈ kb.standards, standard.id ∉ [knowledgeRoot, wikiRoot, notesRoot, standardsRoot] ∧
    kb.categories.find standard.id = none ∧ kb.pages.find standard.id = none ∧ kb.notes.find standard.id = none

/-- The place of a kind of node in the list of the nodes. -/
def rowLevel (kb : KnowledgeBase) (id : String) : Nat :=
  match kb.categories.find id with
  | some category => match category.scope with
    | .wiki => 4
    | .note => 6
    | .standard => 8
  | none => if (kb.pages.find id).isSome then 5 else if (kb.notes.find id).isSome then 7 else 9

def level (kb : KnowledgeBase) (id : String) : Nat :=
  if id = knowledgeRoot then 0
  else if id = wikiRoot then 1
  else if id = notesRoot then 2
  else if id = standardsRoot then 3
  else rowLevel kb id

variable {kb : KnowledgeBase} {order : RowOrder} {store : GraphStore} {user : AuthenticatedUser}
  {mcpOnly permitted : Bool}
  {resource : Resource} {type : TargetType} {scope : KnowledgeKind}

theorem level_row {id : String} (h : id ∉ [knowledgeRoot, wikiRoot, notesRoot, standardsRoot]) :
    level kb id = rowLevel kb id := by
  simp only [List.mem_cons, List.not_mem_nil, or_false, not_or] at h
  obtain ⟨hk, hw, hn, hs⟩ := h
  rw [level, if_neg hk, if_neg hw, if_neg hn, if_neg hs]

theorem level_category (hids : GraphIds kb) {category : Category} (h : category ∈ kb.categories) :
    level kb category.id = match category.scope with
      | .wiki => 4
      | .note => 6
      | .standard => 8 := by
  rw [level_row (hids.categories category h), rowLevel, Table.find_of_mem h]

theorem level_page (hids : GraphIds kb) {page : Page} (h : page ∈ kb.pages) : level kb page.id = 5 := by
  obtain ⟨hroot, hcategory⟩ := hids.pages page h
  rw [level_row hroot, rowLevel, hcategory, Table.find_of_mem h]
  rfl

theorem level_note (hids : GraphIds kb) {note : Note} (h : note ∈ kb.notes) : level kb note.id = 7 := by
  obtain ⟨hroot, hcategory, hpage⟩ := hids.notes note h
  rw [level_row hroot, rowLevel, hcategory, hpage, Table.find_of_mem h]
  rfl

theorem level_standard (hids : GraphIds kb) {standard : Standard} (h : standard ∈ kb.standards) :
    level kb standard.id = 9 := by
  obtain ⟨hroot, hcategory, hpage, hnote⟩ := hids.standards standard h
  rw [level_row hroot, rowLevel, hcategory, hpage, hnote]
  rfl

/-! ## What the queries return -/

theorem readableRows_ok {α : Type} {key : α → String} {rows out : List α}
    (h : readableRows order store user resource type key rows = .ok out) :
    ∃ ids, store.db.allowedTargetIds order user ⟨resource, .read, type, rows.map key⟩ = .ok ids ∧
      out = rows.filter fun row => ids.contains (key row) := by
  obtain ⟨ids, hids, hout⟩ := bind_eq_ok.mp h
  exact ⟨ids, hids, (pure_eq_ok.mp hout).symm⟩

/-- The readable rows of a table are rows of the table, and no row comes twice. -/
theorem readableRows_table {α : Type} {key : α → String} {t : Table key} {p : α → Bool} {out : List α}
    (h : readableRows order store user resource type key (if permitted then t.findMany order p else []) = .ok out) :
    (out.map key).Nodup ∧ ∀ row ∈ out, permitted = true ∧ row ∈ t ∧ p row = true := by
  obtain ⟨ids, -, rfl⟩ := readableRows_ok h
  cases permitted with
  | false => simp
  | true =>
    simp only [if_true]
    refine ⟨Table.nodup_findMany.sublist (List.filter_sublist.map key), fun row hrow => ⟨trivial, ?_⟩⟩
    exact Table.mem_findMany.mp (List.mem_filter.mp hrow).1

theorem readablePages_ok (hrefs : References store.db.knowledge) {pages : List Page}
    (h : readablePages order store user = .ok pages) : (pages.map Page.id).Nodup ∧ ∀ page ∈ pages,
      page ∈ store.db.knowledge.pages ∧ page.deletedAt = none ∧
        Allowed order store.db user ⟨.pages, .read, .page, page.id⟩ := by
  obtain ⟨ids, hids, rfl⟩ := readableRows_ok h
  refine ⟨Table.nodup_findMany.sublist (List.filter_sublist.map Page.id), fun page hpage => ?_⟩
  obtain ⟨hfound, hallowed⟩ := List.mem_filter.mp hpage
  obtain ⟨hmem, hlive⟩ := Table.mem_findMany.mp hfound
  refine ⟨hmem, Option.isNone_iff_eq_none.mp hlive, ?_⟩
  have hiff : page.id ∈ ids ↔ _ ∧ Allowed order store.db user ⟨.pages, .read, .page, page.id⟩ :=
    mem_allowedTargetIds_iff order hrefs (by exact (by decide : isPermissionSupported ⟨.pages, .read⟩ = true))
      (fun id hid => by
        obtain ⟨row, hrow, rfl⟩ := List.mem_map.mp hid
        show (store.db.knowledge.pages.find row.id).isSome
        rw [Table.find_of_mem (Table.mem_findMany.mp hrow).1]
        rfl) hids
  exact (hiff.mp (List.contains_iff_mem.mp hallowed)).2

/-! ## The tree -/

theorem parentAmong_cases (ids : List String) (id : Option String) (otherwise : String) :
    (id = some (parentAmong ids id otherwise) ∧ parentAmong ids id otherwise ∈ ids) ∨
      parentAmong ids id otherwise = otherwise := by
  unfold parentAmong
  cases id with
  | none => exact Or.inr rfl
  | some id =>
    dsimp only
    split
    · next h => exact Or.inl ⟨rfl, List.contains_iff_mem.mp h.2⟩
    · exact Or.inr rfl

/-- The row of one page names the id of another. -/
def ParentOf (kb : KnowledgeBase) (a b : String) : Prop := ∃ page ∈ kb.pages, page.id = a ∧ page.parentId = some b

/-- The rows of a graph: distinct rows of the tables, of the scopes and with the permissions that the branches stand for.
-/
structure GraphRows (kb : KnowledgeBase) (w : WikiBranch) (notes : List Note) (standards : List Standard)
    (noteBranch standardBranch : Branch) : Prop where
  pages : (w.pages.map Page.id).Nodup ∧ ∀ page ∈ w.pages, page ∈ kb.pages
  categories : (w.categories.map Category.id).Nodup ∧ ∀ category ∈ w.categories, category ∈ kb.categories ∧
    category.scope = .wiki
  noteRows : (notes.map Note.id).Nodup ∧ ∀ note ∈ notes, noteBranch.permitted = true ∧ note ∈ kb.notes
  noteEntries : noteBranch.entries = notes.map fun note => (note.id, note.categoryId)
  noteCategories : (noteBranch.allCategories.map Category.id).Nodup ∧ ∀ category ∈ noteBranch.allCategories,
    noteBranch.permitted = true ∧ category ∈ kb.categories ∧ category.scope = .note
  standardRows : (standards.map Standard.id).Nodup ∧ ∀ standard ∈ standards,
    standardBranch.permitted = true ∧ standard ∈ kb.standards
  standardEntries : standardBranch.entries = standards.map fun standard => (standard.id, standard.categoryId)
  standardCategories : (standardBranch.allCategories.map Category.id).Nodup ∧ ∀ category ∈ standardBranch.allCategories,
    standardBranch.permitted = true ∧ category ∈ kb.categories ∧ category.scope = .standard

theorem sublist_categories (b : Branch) : (b.categories mcpOnly).Sublist b.allCategories := by
  unfold Branch.categories
  split
  · exact List.filter_sublist
  · exact .refl _

theorem sublist_relevantPages (w : WikiBranch) : (w.relevantPages mcpOnly).Sublist w.pages := by
  unfold WikiBranch.relevantPages
  split
  · exact List.filter_sublist
  · exact .refl _

theorem sublist_relevantCategories (w : WikiBranch) : (w.relevantCategories mcpOnly).Sublist w.categories := by
  unfold WikiBranch.relevantCategories
  split
  · exact List.filter_sublist
  · exact .refl _

/-- A branch with a category that is shown, or with an entry, has its root. -/
theorem included_of_category {b : Branch} {category : Category} (h : category ∈ b.categories mcpOnly)
    (hpermitted : b.permitted = true) : b.included mcpOnly = true := by
  unfold Branch.included
  cases mcpOnly with
  | false => simp [hpermitted]
  | true =>
    simp only [Branch.categories, if_true, List.mem_filter, List.contains_iff_mem, List.mem_filterMap] at h
    obtain ⟨-, entry, hentry, -⟩ := h
    simp [hpermitted, List.ne_nil_of_mem hentry]

theorem included_of_entry {b : Branch} {entry : String × Option String} (h : entry ∈ b.entries)
    (hpermitted : b.permitted = true) :
    b.included mcpOnly = true := by
  unfold Branch.included
  simp [hpermitted, List.ne_nil_of_mem h]

/-- The pairs of the links of the tree. -/
def treePairs (mcpOnly : Bool) (w : WikiBranch) (noteBranch standardBranch : Branch) : List (String × String) :=
  (treeLinks mcpOnly w noteBranch standardBranch).map fun link => (link.sourceId, link.targetId)

section Tree

open Arborescence

variable {w : WikiBranch} {notes : List Note} {standards : List Standard} {noteBranch standardBranch : Branch}

/-- The roots of the branches. -/
theorem upTo_roots (kb : KnowledgeBase) (n s : Bool) : UpTo (level kb) 4
    ([knowledgeRoot] ++ [wikiRoot] ++ (if n then [notesRoot] else []) ++ (if s then [standardsRoot] else []))
    ([(knowledgeRoot, wikiRoot)] ++ (if n then [(knowledgeRoot, notesRoot)] else []) ++
      (if s then [(knowledgeRoot, standardsRoot)] else [])) knowledgeRoot := by
  have hlevels : level kb wikiRoot = 1 ∧ level kb notesRoot = 2 ∧ level kb standardsRoot = 3 := by
    refine ⟨?_, ?_, ?_⟩ <;> simp [level, knowledgeRoot, wikiRoot, notesRoot, standardsRoot]
  obtain ⟨hwiki, hnotes, hstandards⟩ := hlevels
  have hroot : UpTo (level kb) 1 [knowledgeRoot] [] knowledgeRoot := ⟨.single _, by simp [level]⟩
  have h2 := hroot.attachLeaves [wikiRoot] id (fun _ => knowledgeRoot) (by simp [hwiki]) (by simp) (by simp)
  have h3 := h2.attachLeaves (if n then [notesRoot] else []) id (fun _ => knowledgeRoot)
    (by cases n <;> simp [hnotes]) (by cases n <;> simp) (by simp)
  have h4 := h3.attachLeaves (if s then [standardsRoot] else []) id (fun _ => knowledgeRoot)
    (by cases s <;> simp [hstandards]) (by cases s <;> simp) (by simp)
  cases n <;> cases s <;> simpa using h4

/-- The categories and the pages of the wiki. A page is below another page of the graph only if its row names that page.
-/
theorem upTo_wiki (mcpOnly : Bool) {nodes : List String} {edges : List (String × String)} (hids : GraphIds kb)
    (hacyclic : ∀ a, ¬TransGen (ParentOf kb) a a) (h : UpTo (level kb) 4 nodes edges knowledgeRoot)
    (hroot : wikiRoot ∈ nodes)
    (hpages : (w.pages.map Page.id).Nodup ∧ ∀ page ∈ w.pages, page ∈ kb.pages)
    (hcategories : (w.categories.map Category.id).Nodup ∧ ∀ category ∈ w.categories, category ∈ kb.categories ∧
      category.scope = .wiki) :
    UpTo (level kb) 6
      (nodes ++ (w.relevantCategories mcpOnly).map Category.id ++ (w.relevantPages mcpOnly).map Page.id)
      (edges ++ (w.relevantCategories mcpOnly).map (fun category => (wikiRoot, category.id)) ++
        (w.relevantPages mcpOnly).map fun page => (w.parent mcpOnly page, page.id)) knowledgeRoot := by
  have hcategory : ∀ category ∈ w.relevantCategories mcpOnly, level kb category.id = 4 := by
    intro category hmem
    obtain ⟨hrow, hscope⟩ := hcategories.2 category ((sublist_relevantCategories w).mem hmem)
    rw [level_category hids hrow, hscope]
  have hpageRow : ∀ page ∈ w.relevantPages mcpOnly, page ∈ kb.pages := fun page hmem =>
    hpages.2 page ((sublist_relevantPages w).mem hmem)
  have h5 := h.attachLeaves (w.relevantCategories mcpOnly) Category.id (fun _ => wikiRoot) hcategory
    (hcategories.1.sublist ((sublist_relevantCategories w).map _)) fun _ _ => hroot
  refine h5.attach (w.relevantPages mcpOnly) Page.id (w.parent mcpOnly)
    (fun page hmem => level_page hids (hpageRow page hmem))
    (hpages.1.sublist ((sublist_relevantPages w).map _)) (fun page _ => ?_) fun a hcycle => ?_
  · rcases parentAmong_cases ((w.relevantPages mcpOnly).map Page.id) page.parentId
      (parentAmong ((w.relevantCategories mcpOnly).map Category.id) page.categoryId wikiRoot) with ⟨-, hparent⟩ | hother
    · obtain ⟨y, hy, hyid⟩ := List.mem_map.mp hparent
      exact Or.inr ⟨y, hy, hyid⟩
    · refine Or.inl ?_
      rw [WikiBranch.parent, hother]
      rcases parentAmong_cases ((w.relevantCategories mcpOnly).map Category.id) page.categoryId wikiRoot with
        ⟨-, hin⟩ | hwiki
      · exact List.mem_append_right _ hin
      · rw [hwiki]
        exact List.mem_append_left _ hroot
  · refine hacyclic a (TransGen.mono ?_ _ _ hcycle)
    rintro b c ⟨x, hx, y, hy, rfl, rfl, hparent⟩
    have hlevel : level kb y.id = 5 := level_page hids (hpageRow y hy)
    refine ⟨x, hpageRow x hx, rfl, ?_⟩
    rw [WikiBranch.parent] at hparent
    rcases parentAmong_cases ((w.relevantPages mcpOnly).map Page.id) x.parentId
      (parentAmong ((w.relevantCategories mcpOnly).map Category.id) x.categoryId wikiRoot) with ⟨hsome, -⟩ | hother
    · rw [hsome, hparent]
    · -- a category, or the root of the wiki, is no page
      rw [hother] at hparent
      rcases parentAmong_cases ((w.relevantCategories mcpOnly).map Category.id) x.categoryId wikiRoot with
        ⟨-, hin⟩ | hwiki
      · obtain ⟨category, hmem, hid⟩ := List.mem_map.mp hin
        have hfour := hcategory category hmem
        rw [hid, hparent, hlevel] at hfour
        cases hfour
      · rw [hwiki] at hparent
        rw [← hparent] at hlevel
        simp [level, wikiRoot, knowledgeRoot] at hlevel

/-- A branch of notes or standards below its root. -/
theorem upTo_branch (mcpOnly : Bool) (b : Branch) (root : String) {nodes : List String}
    {edges : List (String × String)} {n : Nat}
    (h : UpTo (level kb) n nodes edges knowledgeRoot) (hroot : b.included mcpOnly = true → root ∈ nodes)
    (hcategories : (b.allCategories.map Category.id).Nodup ∧ ∀ category ∈ b.allCategories,
      b.permitted = true ∧ level kb category.id = n)
    (hentries : (b.entries.map Prod.fst).Nodup ∧ ∀ entry ∈ b.entries, b.permitted = true ∧ level kb entry.1 = n + 1) :
    UpTo (level kb) (n + 2) (nodes ++ (b.categories mcpOnly).map Category.id ++ b.entries.map Prod.fst)
      (edges ++ (b.categories mcpOnly).map (fun category => (root, category.id)) ++
        b.entries.map fun entry => (b.parent mcpOnly root entry, entry.1)) knowledgeRoot := by
  have hall :=
    fun category (hmem : category ∈ b.categories mcpOnly) => hcategories.2 category ((sublist_categories b).mem hmem)
  have hbelow :=
    h.attachLeaves (b.categories mcpOnly) Category.id (fun _ => root) (fun category hmem => (hall category hmem).2)
    (hcategories.1.sublist ((sublist_categories b).map _)) fun category hmem =>
      hroot (included_of_category hmem (hall category hmem).1)
  refine hbelow.attachLeaves b.entries Prod.fst (b.parent mcpOnly root)
    (fun entry hmem => (hentries.2 entry hmem).2) hentries.1
    fun entry hmem => ?_
  rw [Branch.parent]
  rcases parentAmong_cases ((b.categories mcpOnly).map Category.id) entry.2 root with ⟨-, hin⟩ | hsame
  · exact List.mem_append_right _ hin
  · rw [hsame]
    exact List.mem_append_left _ (hroot (included_of_entry hmem (hentries.2 entry hmem).1))

theorem map_fst_entries {α : Type} (key : α → String) (category : α → Option String) (rows : List α) :
    (rows.map fun row => (key row, category row)).map Prod.fst = rows.map key := by
  rw [List.map_map]
  rfl

/-- The ids of the nodes and the links of the tree are a tree. -/
theorem treePairs_arborescence (store : GraphStore) (mcpOnly : Bool) (hids : GraphIds kb)
    (hacyclic : ∀ a, ¬TransGen (ParentOf kb) a a) (hrows : GraphRows kb w notes standards noteBranch standardBranch) :
    Arborescence ((graphNodes store mcpOnly w notes standards noteBranch standardBranch).map GraphNode.id)
      (treePairs mcpOnly w noteBranch standardBranch) knowledgeRoot := by
  have hroots := upTo_roots kb (noteBranch.included mcpOnly) (standardBranch.included mcpOnly)
  have hwiki := upTo_wiki mcpOnly hids hacyclic hroots (by simp) hrows.pages hrows.categories
  have hcategory : ∀ (category : Category) (scope : KnowledgeKind), category ∈ kb.categories → category.scope = scope →
      level kb category.id = match scope with
        | .wiki => 4
        | .note => 6
        | .standard => 8 := by
    rintro category _ hmem rfl
    exact level_category hids hmem
  have hnotes := upTo_branch mcpOnly noteBranch notesRoot hwiki (fun h => by simp [h])
    ⟨hrows.noteCategories.1, fun category hmem => by
      obtain ⟨hpermitted, hrow, hscope⟩ := hrows.noteCategories.2 category hmem
      exact ⟨hpermitted, hcategory category .note hrow hscope⟩⟩
    (by
      rw [hrows.noteEntries, map_fst_entries]
      refine ⟨hrows.noteRows.1, fun entry hmem => ?_⟩
      obtain ⟨note, hnote, rfl⟩ := List.mem_map.mp hmem
      obtain ⟨hpermitted, hrow⟩ := hrows.noteRows.2 note hnote
      exact ⟨hpermitted, level_note hids hrow⟩)
  have hstandards := upTo_branch mcpOnly standardBranch standardsRoot hnotes (fun h => by simp [h])
    ⟨hrows.standardCategories.1, fun category hmem => by
      obtain ⟨hpermitted, hrow, hscope⟩ := hrows.standardCategories.2 category hmem
      exact ⟨hpermitted, hcategory category .standard hrow hscope⟩⟩
    (by
      rw [hrows.standardEntries, map_fst_entries]
      refine ⟨hrows.standardRows.1, fun entry hmem => ?_⟩
      obtain ⟨standard, hstandard, rfl⟩ := List.mem_map.mp hmem
      obtain ⟨hpermitted, hrow⟩ := hrows.standardRows.2 standard hstandard
      exact ⟨hpermitted, level_standard hids hrow⟩)
  convert hstandards.1 using 1
  · rw [hrows.noteEntries, hrows.standardEntries, map_fst_entries, map_fst_entries]
    simp only [graphNodes, List.map_append, List.map_map]
    cases noteBranch.included mcpOnly <;> cases standardBranch.included mcpOnly <;> rfl
  · simp only [treePairs, treeLinks, List.map_append, List.map_map]
    cases noteBranch.included mcpOnly <;> cases standardBranch.included mcpOnly <;> rfl

/-! ## The whole graph -/

theorem page_mem_ids {id : String} (h : id ∈ (w.relevantPages mcpOnly).map Page.id) :
    id ∈ (graphNodes store mcpOnly w notes standards noteBranch standardBranch).map GraphNode.id := by
  obtain ⟨page, hpage, rfl⟩ := List.mem_map.mp h
  refine List.mem_map.mpr ⟨pageNode w page, ?_, rfl⟩
  have hnode : pageNode w page ∈ (w.relevantPages mcpOnly).map (pageNode w) := List.mem_map_of_mem hpage
  simp only [graphNodes, List.mem_append]
  tauto

theorem standard_mem_ids {standard : Standard} (h : standard ∈ standards) :
    standard.id ∈ (graphNodes store mcpOnly w notes standards noteBranch standardBranch).map GraphNode.id := by
  refine List.mem_map.mpr ⟨standardNode store mcpOnly standardBranch standard, ?_, rfl⟩
  exact List.mem_append_right _ (List.mem_map_of_mem h)

/-- The nodes of pages are those of the rows. -/
theorem pageNode_of_type {node : GraphNode}
    (h : node ∈ graphNodes store mcpOnly w notes standards noteBranch standardBranch)
    (htype : node.type = .page ∨ node.type = .folder) : ∃ page ∈ w.relevantPages mcpOnly, node = pageNode w page := by
  have hroot : ∀ (included : Bool) (root : GraphNode), root.type ≠ .page → root.type ≠ .folder →
      node ∉ branchRoot included root := by
    intro included root hpage hfolder hmem
    cases included with
    | false => cases hmem
    | true =>
      obtain rfl := List.mem_singleton.mp hmem
      exact htype.elim hpage hfolder
  simp only [graphNodes, List.mem_append, List.mem_map, List.mem_cons, List.not_mem_nil, or_false] at h
  rcases h with
    (((((((((rfl | rfl) | h) | h) | ⟨_, -, rfl⟩) | ⟨page, hpage, rfl⟩) | ⟨_, -, rfl⟩) | ⟨_, -, rfl⟩) | ⟨_, -,
      rfl⟩) | ⟨_, -, rfl⟩)
  · simp [rootNode] at htype
  · simp [rootNode] at htype
  · exact absurd h (hroot _ _ (by simp [rootNode]) (by simp [rootNode]))
  · exact absurd h (hroot _ _ (by simp [rootNode]) (by simp [rootNode]))
  · simp [categoryNode] at htype
  · exact ⟨page, hpage, rfl⟩
  · simp [categoryNode] at htype
  · simp [noteNode] at htype
  · simp [categoryNode] at htype
  · simp [standardNode] at htype

/-- A visible page is in the graph. -/
theorem contentIds_subset {id : String} (h : id ∈ w.contentIds mcpOnly) : id ∈ (w.relevantPages mcpOnly).map Page.id := by
  obtain ⟨page, hpage, rfl⟩ := List.mem_map.mp h
  refine List.mem_map_of_mem ?_
  have hrow : page ∈ w.pages := (List.mem_filter.mp hpage).1
  unfold WikiBranch.relevantPages
  cases mcpOnly with
  | false => exact hrow
  | true =>
    refine List.mem_filter.mpr ⟨hrow, ?_⟩
    rw [Bool.or_eq_true]
    exact Or.inl (List.contains_iff_mem.mpr h)

/-- The links of the tree are the structural ones. -/
theorem structureLinks_eq {nodes : List GraphNode} :
    KnowledgeGraph.structureLinks ⟨nodes, treeLinks mcpOnly w noteBranch standardBranch ++
      standardLinks store mcpOnly w standards ++ wikiLinks store mcpOnly w⟩ =
        treePairs mcpOnly w noteBranch standardBranch := by
  have htree : ∀ link ∈ treeLinks mcpOnly w noteBranch standardBranch, (link.kind == .structural) = true := by
    intro link hlink
    have hnotes : ∀ included : Bool, ∀ l ∈ (if included then [structureLink knowledgeRoot notesRoot] else []),
        l.kind = .structural := by
      intro included
      cases included <;> simp [structureLink]
    have hstandards : ∀ included : Bool, ∀ l ∈ (if included then [structureLink knowledgeRoot standardsRoot] else []),
        l.kind = .structural := by
      intro included
      cases included <;> simp [structureLink]
    rw [beq_iff_eq]
    simp only [treeLinks, List.mem_append, List.mem_map, List.mem_singleton] at hlink
    rcases hlink with
      (((((((rfl | h) | h) | ⟨_, _, rfl⟩) | ⟨_, _, rfl⟩) | ⟨_, _, rfl⟩) | ⟨_, _, rfl⟩) | ⟨_, _, rfl⟩) | ⟨_, _, rfl⟩
    · rfl
    · exact hnotes _ link h
    · exact hstandards _ link h
    all_goals rfl
  have hstandard : ∀ link ∈ standardLinks store mcpOnly w standards, ¬(link.kind == .structural) = true := by
    intro link hlink
    obtain ⟨standard, -, hlink⟩ := List.mem_flatMap.mp hlink
    obtain ⟨row, -, rfl⟩ := List.mem_map.mp hlink
    exact Bool.false_ne_true
  have hwiki : ∀ link ∈ wikiLinks store mcpOnly w, ¬(link.kind == .structural) = true := by
    intro link hlink
    obtain ⟨row, -, rfl⟩ := List.mem_map.mp hlink
    exact Bool.false_ne_true
  rw [KnowledgeGraph.structureLinks, List.filter_append, List.filter_append, List.filter_eq_self.mpr htree,
    List.filter_eq_nil_iff.mpr hstandard, List.filter_eq_nil_iff.mpr hwiki, List.append_nil, List.append_nil]
  rfl

end Tree

/-- What a graph must be: links have both ends in it, ids are distinct, the pages are live pages that the user may read,
and the structural links are a tree of all nodes. -/
structure WellFormedGraph (order : RowOrder) (db : Database) (user : AuthenticatedUser)
    (graph : KnowledgeGraph) : Prop where
  ends : ∀ link ∈ graph.links, link.sourceId ∈ graph.ids ∧ link.targetId ∈ graph.ids
  distinct : graph.ids.Nodup
  readable : ∀ node ∈ graph.nodes, node.type = .page ∨ node.type = .folder → ∃ page ∈ db.knowledge.pages,
    page.id = node.id ∧ page.deletedAt = none ∧ Allowed order db user ⟨.pages, .read, .page, page.id⟩
  tree : Arborescence graph.ids graph.structureLinks knowledgeRoot

/-- **The knowledge graph.** Every graph that `findGraph` returns is well formed, if no page is an ancestor of itself. -/
theorem findGraph_wellFormed (order : RowOrder) (store : GraphStore) (user : AuthenticatedUser) (mcpOnly : Bool)
    (graph : KnowledgeGraph) (hids : GraphIds store.db.knowledge) (hrefs : References store.db.knowledge)
    (hacyclic : ∀ id, ¬TransGen (ParentOf store.db.knowledge) id id)
    (h : findGraph order store user mcpOnly = .ok graph) : WellFormedGraph order store.db user graph := by
  unfold findGraph at h
  obtain ⟨pages, hpages, h⟩ := bind_eq_ok.mp h
  obtain ⟨categories, hcategories, h⟩ := bind_eq_ok.mp h
  obtain ⟨notes, hnotes, h⟩ := bind_eq_ok.mp h
  obtain ⟨allNoteCategories, hnoteCategories, h⟩ := bind_eq_ok.mp h
  obtain ⟨standards, hstandards, h⟩ := bind_eq_ok.mp h
  obtain ⟨allStandardCategories, hstandardCategories, h⟩ := bind_eq_ok.mp h
  cases pure_eq_ok.mp h
  obtain ⟨hpagesNodup, hpagesRead⟩ := readablePages_ok hrefs hpages
  have hcategoryRows : ∀ {permitted scope rows}, readableCategories order store user permitted scope = .ok rows →
      (rows.map Category.id).Nodup ∧ ∀ category ∈ rows, permitted = true ∧ category ∈ store.db.knowledge.categories ∧
        category.scope = scope := by
    intro permitted scope rows hrows
    obtain ⟨hnodup, hall⟩ := readableRows_table hrows
    exact ⟨hnodup, fun category hmem => by simpa using hall category hmem⟩
  have hrows : GraphRows store.db.knowledge ⟨pages, categories⟩ notes standards
      (noteBranch (store.db.directory.isAllowed user ⟨.notes, .read⟩) notes allNoteCategories)
      (standardBranch (store.db.directory.isAllowed user ⟨.standards, .read⟩) standards allStandardCategories) :=
    { pages := ⟨hpagesNodup, fun page hmem => (hpagesRead page hmem).1⟩
      categories := ⟨(hcategoryRows hcategories).1, fun category hmem => ((hcategoryRows hcategories).2 category hmem).2⟩
      noteRows := by
        obtain ⟨hnodup, hall⟩ := readableRows_table hnotes
        exact ⟨hnodup, fun note hmem => ⟨(hall note hmem).1, (hall note hmem).2.1⟩⟩
      noteEntries := rfl
      noteCategories := hcategoryRows hnoteCategories
      standardRows := by
        obtain ⟨hnodup, hall⟩ := readableRows_table hstandards
        exact ⟨hnodup, fun standard hmem => ⟨(hall standard hmem).1, (hall standard hmem).2.1⟩⟩
      standardEntries := rfl
      standardCategories := hcategoryRows hstandardCategories }
  have htree := treePairs_arborescence store mcpOnly hids hacyclic hrows
  refine ⟨fun link hlink => ?_, htree.nodup, fun node hnode htype => ?_, ?_⟩
  · rcases List.mem_append.mp hlink with hlink | hlink
    · rcases List.mem_append.mp hlink with hlink | hlink
      · have hpair : (link.sourceId, link.targetId) ∈ treePairs mcpOnly _ _ _ := List.mem_map_of_mem hlink
        exact ⟨htree.source_mem _ hpair, htree.target_mem hpair⟩
      · obtain ⟨standard, hstandard, hlink⟩ := List.mem_flatMap.mp hlink
        obtain ⟨row, hrow, rfl⟩ := List.mem_map.mp hlink
        have hpage := (Bool.and_eq_true_iff.mp (List.mem_filter.mp hrow).2).2
        exact ⟨standard_mem_ids hstandard, page_mem_ids (List.contains_iff_mem.mp hpage)⟩
    · obtain ⟨row, hrow, rfl⟩ := List.mem_map.mp hlink
      obtain ⟨hsource, htarget⟩ := Bool.and_eq_true_iff.mp (List.mem_filter.mp hrow).2
      exact ⟨page_mem_ids (contentIds_subset (List.contains_iff_mem.mp hsource)),
        page_mem_ids (contentIds_subset (List.contains_iff_mem.mp htarget))⟩
  · obtain ⟨page, hpage, rfl⟩ := pageNode_of_type hnode htype
    obtain ⟨hmem, hlive, hallowed⟩ := hpagesRead page ((sublist_relevantPages _).mem hpage)
    exact ⟨page, hmem, rfl, hlive, hallowed⟩
  · rw [structureLinks_eq]
    exact htree

namespace GraphDemo

def admin : AuthenticatedUser :=
  ⟨"admin", "admin@wiki", "admin", "Admin", "role", "admin", true, none, some true, some .jwt, none, none⟩

def folder : Page :=
  ⟨"folder", "Folder", "folder", .folder, "", none, .published, false, false, 1, 0, none, none, "space", "admin",
    some "guides", none⟩

/-- A visible page in a folder of a category. -/
def guide : Page :=
  ⟨"guide", "Guide", "guide", .page, "", none, .published, false, true, 1, 0, none, none, "space", "admin", some "guides",
    some "folder"⟩

def tables : GraphStore where
  db :=
    { directory :=
        { roles := .single ⟨"role", "admin"⟩
          users := .single ⟨"admin", "admin@wiki", "admin", "Admin", "", "role", true, true, true⟩
          acls := .empty
          permissions := .empty
          providers := .empty
          roleMappings := .empty
          externalIdentities := .empty
          externalRoleGrants := .empty }
      knowledge :=
        { spaces := .single ⟨"space", "Wiki", .opened, [.wiki, .note, .standard]⟩
          categories := .single ⟨"guides", "Guides", "guides", .wiki, none, none, 0, "space"⟩
          pages := ⟨[folder, guide], by decide⟩
          notes := .single ⟨"note", none, some "space", "admin", none⟩
          noteShares := .empty
          standards := .single ⟨"standard", "Standard", "space", none⟩ }
      groupMemberships := .empty
      resourceAclEntries := .empty
      resourceAclBoundaries := .empty }
  noteColumns := fun _ => ⟨"first line", true, none⟩
  standardColumns := fun _ => ⟨"standard", .active, true⟩
  pageLinks := .single ⟨"guide", "guide"⟩
  standardPages := .single ⟨"standard", "guide"⟩

theorem ids : GraphIds tables.db.knowledge where
  categories := by simp [tables, Table.mem_def, knowledgeRoot, wikiRoot, notesRoot, standardsRoot]
  pages := by
    simp [tables, Table.mem_def, knowledgeRoot, wikiRoot, notesRoot, standardsRoot, folder, guide, Table.find]
  notes := by
    simp [tables, Table.mem_def, knowledgeRoot, wikiRoot, notesRoot, standardsRoot, folder, guide, Table.find]
  standards := by
    simp [tables, Table.mem_def, knowledgeRoot, wikiRoot, notesRoot, standardsRoot, folder, guide, Table.find]

theorem references : References tables.db.knowledge where
  categorySpace := by simp [tables, Table.mem_def, Table.find]
  pageSpace := by simp [tables, Table.mem_def, folder, guide, Table.find]
  pageCategory := by simp [tables, Table.mem_def, folder, guide, Table.find]
  noteSpace := by simp [tables, Table.mem_def, Table.find]
  noteCategory := by simp [tables, Table.mem_def]
  standardSpace := by simp [tables, Table.mem_def, Table.find]
  standardCategory := by simp [tables, Table.mem_def]

/-- The guide is below the folder, and nothing else is below anything. -/
theorem acyclic (id : String) : ¬TransGen (ParentOf tables.db.knowledge) id id := by
  have hparent : ∀ a b, ParentOf tables.db.knowledge a b → a = "guide" ∧ b = "folder" := by
    rintro a b ⟨page, hpage, rfl, hb⟩
    have hrow : page = folder ∨ page = guide := by simpa [tables, Table.mem_def] using hpage
    rcases hrow with rfl | rfl
    · cases hb
    · exact ⟨rfl, (Option.some.inj hb).symm⟩
  intro hcycle
  obtain ⟨b, hfirst, -⟩ := TransGen.head'_iff.mp hcycle
  obtain ⟨c, -, hlast⟩ := TransGen.tail'_iff.mp hcycle
  have hguide : id = "guide" := (hparent _ _ hfirst).1
  have hfolder : id = "folder" := (hparent _ _ hlast).2
  rw [hguide] at hfolder
  exact absurd hfolder (by decide)

end GraphDemo

/-- A graph with all four roots, in which the page is below its folder. -/
theorem findGraph_wellFormed_guide : ∃ graph, findGraph .stored GraphDemo.tables GraphDemo.admin true = .ok graph ∧
    graph.nodes.length = 9 ∧ ("folder", "guide") ∈ graph.structureLinks ∧
    WellFormedGraph .stored GraphDemo.tables.db GraphDemo.admin graph := by
  have hrun : (findGraph .stored GraphDemo.tables GraphDemo.admin true).toOption.any fun graph =>
      graph.nodes.length == 9 && graph.structureLinks.contains ("folder", "guide") := by decide +kernel
  obtain ⟨graph, hgraph, h⟩ := (Option.any_eq_true _ _).mp hrun
  obtain ⟨hlength, hlink⟩ := Bool.and_eq_true_iff.mp h
  have hok := toOption_eq_some.mp hgraph
  exact ⟨graph, hok, beq_iff_eq.mp hlength, List.contains_iff_mem.mp hlink,
    findGraph_wellFormed .stored GraphDemo.tables GraphDemo.admin true graph GraphDemo.ids GraphDemo.references
      GraphDemo.acyclic hok⟩

end AdWiki.Wiki
