import AdWiki.Access.Catalog
import AdWiki.Common.JsString
import AdWiki.Wiki.Tables

/-!
# Access targets and their hierarchies

`ResourceTargetService`: a target of an access rule is a space, a category, a wiki page, a note or a standard, and a
hierarchy is the path from a target up to its space. There are two pipelines, one for a single target
(`resolveHierarchy`) and one for many targets of one type (`resolveHierarchies`), with loops and error texts of their
own. Rows of a query come in the order that the data store chooses.
-/

namespace AdWiki.Access

open Wiki

inductive TargetType
  | space
  | category
  | page
  | note
  | standard
  deriving DecidableEq, Repr

def TargetType.text : TargetType → String
  | .space => "space"
  | .category => "category"
  | .page => "page"
  | .note => "note"
  | .standard => "standard"

structure ResolvedResourceTarget where
  type : TargetType
  id : String
  label : String
  key : String
  allowedResources : List Resource
  deriving DecidableEq, Repr

/-- The owner and the shares of a note outside the spaces. -/
structure PersonalNote where
  ownerId : String
  shares : List NoteShare
  deriving DecidableEq, Repr

structure ResolvedTargetHierarchy where
  path : List ResolvedResourceTarget
  spaceVisibility : Option SpaceVisibility
  personalNote : Option PersonalNote
  deriving DecidableEq, Repr

def contentResources : List Resource := [.pages, .categories, .notes, .standards, .spaces]

def targetKey (type : TargetType) (id : String) : String := type.text ++ ":" ++ id

def target (type : TargetType) (id label : String) (allowedResources : List Resource) : ResolvedResourceTarget :=
  ⟨type, id, label, targetKey type id, Js.distinct allowedResources⟩

def resourceForScope : KnowledgeKind → Resource
  | .note => .notes
  | .standard => .standards
  | .wiki => .pages

def spaceTarget (space : KnowledgeSpace) : ResolvedResourceTarget := target .space space.id space.name contentResources

def categoryTarget (category : Category) (resource : Resource) : ResolvedResourceTarget :=
  target .category category.id category.name [.categories, resource]

def pageTarget (page : Page) : ResolvedResourceTarget := target .page page.id page.title [.pages]

def noteTarget (note : Note) : ResolvedResourceTarget :=
  target .note note.id (note.title.getD "Unbenannte Notiz") [.notes]

def standardTarget (standard : Standard) : ResolvedResourceTarget :=
  target .standard standard.id standard.title [.standards]

def assertActionSupported (target : ResolvedResourceTarget) (action : Action) : Except HttpError Unit :=
  if target.allowedResources.any fun resource => (permissionCatalog resource).contains action then .ok ()
  else .error (.badRequest ("Die Aktion \"" ++ action.text ++ "\" wird für dieses ACL-Ziel nicht unterstützt."))

def assertResourceMatches (target : ResolvedResourceTarget) (resource : Resource) : Except HttpError Unit :=
  if target.allowedResources.contains resource then .ok ()
  else .error (.badRequest
    ("Die Ressource \"" ++ resource.text ++ "\" passt nicht zum ACL-Ziel \"" ++ target.type.text ++ "\"."))

/-- A relation that the schema requires. -/
def required {α : Type} (row : Option α) : Except HttpError α :=
  match row with
  | some a => .ok a
  | none => .error (.internal "Inconsistent query result")

variable (order : RowOrder) (kb : KnowledgeBase)

/-! ## A single target -/

/-- The level of the category, if there is one; `message` says that it lies in another space. -/
def categoryLevel (categoryId : Option String) (spaceId : String) (resource : Resource) (message : String) :
    Except HttpError (List ResolvedResourceTarget) :=
  match categoryId with
  | none => .ok []
  | some id =>
    match kb.categories.find id with
    | none => .error (.badRequest message)
    | some category =>
      if category.spaceId ≠ spaceId then .error (.badRequest message) else .ok [categoryTarget category resource]

/-- The last level, the space. -/
def spaceLevel (spaceId : String) (path : List ResolvedResourceTarget) : Except HttpError ResolvedTargetHierarchy :=
  match kb.spaces.find spaceId with
  | none => .error (.notFound "Wissensbereich wurde nicht gefunden.")
  | some space => .ok ⟨path ++ [spaceTarget space], some space.visibility, none⟩

def spaceHierarchy (id : String) : Except HttpError ResolvedTargetHierarchy := spaceLevel kb id []

def categoryHierarchy (id : String) : Except HttpError ResolvedTargetHierarchy :=
  match kb.categories.find id with
  | none => .error (.notFound "Kategorie wurde nicht gefunden.")
  | some category => do
    let space ← required (kb.spaces.find category.spaceId)
    pure ⟨[categoryTarget category (resourceForScope category.scope), spaceTarget space], some space.visibility, none⟩

/-- The variables of the loop of `pageHierarchy`. -/
structure Climb where
  visited : List String
  path : List ResolvedResourceTarget
  categoryId : Option String
  spaceId : Option String

def chainTooDeep : HttpError := .badRequest "Die Wiki-Elternkette ist zyklisch oder zu tief."

/-- The loop of `pageHierarchy`; the first argument is what is left of the 100 pages. -/
def climbPages (pages : Table Page.id) (id : String) : Nat → Climb → Option String → Except HttpError Climb
  | _, climb, none => .ok climb
  | 0, _, some _ => .error chainTooDeep
  | left + 1, climb, some currentId =>
    if climb.visited.contains currentId then .error chainTooDeep
    else
      match pages.find currentId with
      | none => .error (.notFound (if currentId = id then "Wiki-Eintrag wurde nicht gefunden."
          else "Ein Elternordner wurde nicht gefunden."))
      | some page =>
        if climb.spaceId.any (· ≠ page.spaceId) then
          .error (.badRequest "Die Wiki-Elternkette überschreitet einen Bereich.")
        else if climb.visited ≠ [] ∧ page.categoryId ≠ climb.categoryId then
          .error (.badRequest "Die Wiki-Elternkette überschreitet eine Kategorie.")
        else
          climbPages pages id left
            { visited := currentId :: climb.visited
              path := climb.path ++ [pageTarget page]
              categoryId := climb.categoryId.or page.categoryId
              spaceId := some page.spaceId } page.parentId

def pageHierarchy (id : String) : Except HttpError ResolvedTargetHierarchy := do
  let climb ← climbPages kb.pages id 100 ⟨[], [], none, none⟩ (some id)
  match climb.spaceId with
  | none => .error (.notFound "Wissensbereich wurde nicht gefunden.")
  | some spaceId => do
    let category ← categoryLevel kb climb.categoryId spaceId .pages "Wiki-Kategorie und Bereich stimmen nicht überein."
    spaceLevel kb spaceId (climb.path ++ category)

/-- The shares of a note. -/
def sharesOf (noteId : String) : List NoteShare := kb.noteShares.findMany order fun share => share.noteId == noteId

def noteHierarchy (id : String) : Except HttpError ResolvedTargetHierarchy :=
  match kb.notes.find id with
  | none => .error (.notFound "Notiz wurde nicht gefunden.")
  | some note =>
    match note.spaceId with
    | none => .ok ⟨[noteTarget note], none, some ⟨note.ownerId, sharesOf order kb note.id⟩⟩
    | some spaceId => do
      let category ← categoryLevel kb note.categoryId spaceId .notes "Notizkategorie und Bereich stimmen nicht überein."
      spaceLevel kb spaceId (noteTarget note :: category)

def standardHierarchy (id : String) : Except HttpError ResolvedTargetHierarchy :=
  match kb.standards.find id with
  | none => .error (.notFound "Richtlinie wurde nicht gefunden.")
  | some standard => do
    let category ← categoryLevel kb standard.categoryId standard.spaceId .standards
      "Richtlinienkategorie und Bereich stimmen nicht überein."
    spaceLevel kb standard.spaceId (standardTarget standard :: category)

def resolveHierarchy (type : TargetType) (id : String) : Except HttpError ResolvedTargetHierarchy :=
  match type with
  | .space => spaceHierarchy kb id
  | .category => categoryHierarchy kb id
  | .page => pageHierarchy kb id
  | .note => noteHierarchy order kb id
  | .standard => standardHierarchy kb id

/-! ## Many targets of one type -/

abbrev Hierarchies := OrderedMap String ResolvedTargetHierarchy

/-- `for (const row of rows)`: each row sets its entry of the result, or leaves it out. -/
def collect {α : Type} (id : α → String) (hierarchy : α → Except HttpError (Option ResolvedTargetHierarchy))
    (rows : List α) : Except HttpError Hierarchies :=
  rows.foldlM
    (fun result row => do
      match ← hierarchy row with
      | some h => pure (result.set (id row) h)
      | none => pure result)
    OrderedMap.empty

def spaceHierarchies (ids : List String) : Except HttpError Hierarchies :=
  collect KnowledgeSpace.id (fun space => .ok (some ⟨[spaceTarget space], some space.visibility, none⟩))
    (kb.spaces.findMany order fun space => ids.contains space.id)

def categoryHierarchies (ids : List String) : Except HttpError Hierarchies :=
  collect Category.id
    (fun category => do
      let space ← required (kb.spaces.find category.spaceId)
      pure (some ⟨[categoryTarget category (resourceForScope category.scope), spaceTarget space],
        some space.visibility, none⟩))
    (kb.categories.findMany order fun category => ids.contains category.id)

/-- The loop of `pageHierarchies` over the parents of a candidate. -/
def climbCandidate (pagesById : OrderedMap String Page) (candidate : Page) :
    Nat → List String → List ResolvedResourceTarget → Page → Except HttpError (List ResolvedResourceTarget)
  | 0, _, _, _ => .error chainTooDeep
  | left + 1, visited, path, current =>
    if visited.contains current.id then .error chainTooDeep
    else if current.spaceId ≠ candidate.spaceId ∨ current.categoryId ≠ candidate.categoryId then
      .error (.badRequest "Die Wiki-Elternkette überschreitet einen Bereich oder eine Kategorie.")
    else
      match current.parentId with
      | none => .ok (path ++ [pageTarget current])
      | some parentId =>
        match pagesById.get? parentId with
        | none => .error (.badRequest "Ein Elternordner der Wiki-Hierarchie fehlt.")
        | some parent =>
          climbCandidate pagesById candidate left (current.id :: visited) (path ++ [pageTarget current]) parent

def candidateHierarchy (pagesById : OrderedMap String Page) (categoriesById : OrderedMap String Category)
    (spacesById : OrderedMap String KnowledgeSpace) (candidate : Page) :
    Except HttpError (Option ResolvedTargetHierarchy) := do
  let pages ← climbCandidate pagesById candidate 100 [] [] candidate
  let category ← match candidate.categoryId with
    | none => .ok []
    | some categoryId =>
      match categoriesById.get? categoryId with
      | none => .error (.badRequest "Wiki-Kategorie und Bereich stimmen nicht überein.")
      | some category =>
        if category.spaceId ≠ candidate.spaceId then
          .error (.badRequest "Wiki-Kategorie und Bereich stimmen nicht überein.")
        else .ok [categoryTarget category .pages]
  match spacesById.get? candidate.spaceId with
  | none => pure none
  | some space => pure (some ⟨pages ++ category ++ [spaceTarget space], some space.visibility, none⟩)

def pageHierarchies (ids : List String) : Except HttpError Hierarchies :=
  let candidates := kb.pages.findMany order fun page => ids.contains page.id
  if candidates = [] then .ok OrderedMap.empty
  else
    let spaceIds := Js.distinct (candidates.map Page.spaceId)
    let allPages := kb.pages.findMany order fun page => spaceIds.contains page.spaceId
    let categoryIds := Js.distinct (candidates.filterMap Page.categoryId)
    let categories := kb.categories.findMany order fun category => categoryIds.contains category.id
    let spaces := kb.spaces.findMany order fun space => spaceIds.contains space.id
    collect Page.id
      (candidateHierarchy (Table.index Page.id allPages) (Table.index Category.id categories)
        (Table.index KnowledgeSpace.id spaces))
      candidates

def noteHierarchies (ids : List String) : Except HttpError Hierarchies :=
  collect Note.id
    (fun note =>
      match note.spaceId.bind kb.spaces.find with
      | none => .ok (some ⟨[noteTarget note], none, some ⟨note.ownerId, sharesOf order kb note.id⟩⟩)
      | some space =>
        match note.categoryId.bind kb.categories.find with
        | none => .ok (some ⟨[noteTarget note, spaceTarget space], some space.visibility, none⟩)
        | some category =>
          if category.spaceId ≠ space.id then
            .error (.badRequest "Notizkategorie und Bereich stimmen nicht überein.")
          else
            .ok
              (some ⟨[noteTarget note, categoryTarget category .notes, spaceTarget space], some space.visibility, none⟩))
    (kb.notes.findMany order fun note => ids.contains note.id)

def standardHierarchies (ids : List String) : Except HttpError Hierarchies :=
  collect Standard.id
    (fun standard => do
      let space ← required (kb.spaces.find standard.spaceId)
      match standard.categoryId.bind kb.categories.find with
      | none => pure (some ⟨[standardTarget standard, spaceTarget space], some space.visibility, none⟩)
      | some category =>
        if category.spaceId ≠ space.id then
          .error (.badRequest "Richtlinienkategorie und Bereich stimmen nicht überein.")
        else
          pure (some ⟨[standardTarget standard, categoryTarget category .standards, spaceTarget space],
            some space.visibility, none⟩))
    (kb.standards.findMany order fun standard => ids.contains standard.id)

def resolveHierarchies (type : TargetType) (ids : List String) : Except HttpError Hierarchies :=
  let uniqueIds := Js.distinct ids
  if uniqueIds = [] then .ok OrderedMap.empty
  else
    match type with
    | .space => spaceHierarchies order kb uniqueIds
    | .category => categoryHierarchies order kb uniqueIds
    | .page => pageHierarchies order kb uniqueIds
    | .note => noteHierarchies order kb uniqueIds
    | .standard => standardHierarchies order kb uniqueIds

end AdWiki.Access
