import AdWiki.Standards.Standard
import AdWiki.Wiki.PagesService

/-!
# The services of spaces, notes and standards

`SpacesService`, `NotesService` and `StandardsService`, `create` and `update` of each, and `CategoriesService.create`:
the space and the category in which an entry is to be. Each is executed as a whole. What a call reads of columns that the
tables do not have (system spaces, responsible groups, the trash of notes) only decides whether it is refused
(`Outside.refused`); the status, the responsible user and the linked pages of a standard come from outside too.
-/

namespace AdWiki.Wiki

open Access Fallible

/-- The outside choices of a call. -/
structure Outside where
  refused : Option HttpError
  id : String

def Outside.check (c : Outside) : Except HttpError Unit :=
  match c.refused with
  | none => .ok ()
  | some e => .error e

structure CreateKnowledgeSpaceInput where
  name : String
  visibility : Option SpaceVisibility
  enabledKinds : Option (List KnowledgeKind)
  deriving DecidableEq, Repr

structure UpdateKnowledgeSpaceInput where
  name : Option String
  visibility : Option SpaceVisibility
  enabledKinds : Option (List KnowledgeKind)
  deriving DecidableEq, Repr

structure CreateCategoryInput where
  name : String
  spaceId : Option String
  scope : Option KnowledgeKind
  description : Option String
  icon : Option String
  sortOrder : Option Int
  deriving DecidableEq, Repr

structure CreateNoteInput where
  title : Option String
  spaceId : Option String
  categoryId : Option String
  deriving DecidableEq, Repr

/-- A field is `none` where the request leaves it out, and `some none` where it is null. -/
structure UpdateNoteInput where
  title : Option (Option String)
  spaceId : Option (Option String)
  categoryId : Option (Option String)
  deriving DecidableEq, Repr

/-- What an update reads of the row of a standard and of its links. -/
structure StandardDetails where
  status : Standards.StandardStatus
  responsibleId : String
  pages : List String
  deriving DecidableEq, Repr

def spaceNotFound : HttpError := .notFound "Wissensbereich wurde nicht gefunden."

def notStandardCategory : HttpError := .badRequest "Die Kategorie gehört nicht zu den Richtlinien."

def Note.write (input : UpdateNoteInput) (title : Option String) (spaceId : Option String) (row : Note) : Note :=
  { row with
    title := if input.title.isSome then title else row.title
    spaceId := if input.spaceId.isSome then spaceId else row.spaceId
    categoryId := input.categoryId.getD row.categoryId }

def Standard.write (input : Standards.UpdateStandardInput) (spaceId : String) (row : Standard) : Standard :=
  { row with
    title := input.title.getD row.title
    spaceId := spaceId
    categoryId := input.categoryId.getD row.categoryId }

def KnowledgeSpace.write (input : UpdateKnowledgeSpaceInput) (row : KnowledgeSpace) : KnowledgeSpace :=
  { row with
    name := input.name.getD row.name
    visibility := input.visibility.getD row.visibility
    enabledKinds := input.enabledKinds.getD row.enabledKinds }

@[simp] theorem Note.write_id {input : UpdateNoteInput} {title spaceId : Option String} {row : Note} :
    (row.write input title spaceId).id = row.id := rfl

@[simp] theorem Standard.write_id {input : Standards.UpdateStandardInput} {spaceId : String} {row : Standard} :
    (row.write input spaceId).id = row.id := rfl

@[simp] theorem KnowledgeSpace.write_id {input : UpdateKnowledgeSpaceInput} {row : KnowledgeSpace} :
    (row.write input).id = row.id := rfl

namespace KnowledgeBase

variable (kb : KnowledgeBase)

/-- The rows of a space that are of the kind: its entries and the categories for them. -/
def kindCount (spaceId : String) : KnowledgeKind → Nat
  | .wiki =>
    (kb.pages.rows.countP fun page => page.spaceId == spaceId) +
      kb.categories.rows.countP fun category => category.spaceId == spaceId && category.scope == .wiki
  | .note =>
    (kb.notes.rows.countP fun note => note.spaceId == some spaceId) +
      kb.categories.rows.countP fun category => category.spaceId == spaceId && category.scope == .note
  | .standard =>
    (kb.standards.rows.countP fun standard => standard.spaceId == spaceId) +
      kb.categories.rows.countP fun category => category.spaceId == spaceId && category.scope == .standard

def assertKindsMayBeDisabled (spaceId : String) (enabledKinds : List KnowledgeKind) : Except HttpError Unit :=
  throwIf
    (¬[KnowledgeKind.wiki, .note, .standard].all fun kind => enabledKinds.contains kind || kb.kindCount spaceId kind == 0)
    (.conflict "Ein Inhaltstyp mit vorhandenen Inhalten kann nicht deaktiviert werden.")

def ensureNoteCategory (id : String) : Except HttpError Category :=
  match (kb.categories.find id).filter fun category => category.scope == .note with
  | none => .error (.badRequest "Die gewählte Kategorie gehört nicht zu den Notizen.")
  | some category => .ok category

/-- The category and the space of a note, which `create` and `update` check alike. -/
def resolveNotePlace (categoryId requestedSpaceId : Option String) : Except HttpError (Option String) := do
  let category ← categoryId.mapM kb.ensureNoteCategory
  let spaceId ← requestedSpaceId.mapM fun id => kb.resolveOpenSpace .note (some id)
  throwIf (spaceId.isSome ∧ category.any fun category => some category.spaceId != spaceId)
    (.badRequest "Notiz und Kategorie müssen demselben Bereich angehören.")
  pure spaceId

def resolveStandardSpace (requestedSpaceId categoryId : Option String) (pageIds : List String)
    (fallbackSpaceId : Option String) : Except HttpError String := do
  let category := categoryId.bind kb.categories.find
  let firstPage := pageIds.head?.bind kb.findLive
  throwIf (categoryId.isSome ∧ ¬category.any fun category => category.scope == .standard) notStandardCategory
  kb.resolveOpenSpace .standard
    (requestedSpaceId.or <| (category.map Category.spaceId).or <| (firstPage.map Page.spaceId).or fallbackSpaceId)

/-- `page.count({ where: { id: { in: pageIds }, deletedAt: null } })`, in one space if `spaceId` is given. -/
def livePageCount (pageIds : List String) (spaceId : Option String) : Nat :=
  kb.pages.rows.countP fun page =>
    pageIds.contains page.id && page.deletedAt.isNone && spaceId.all fun spaceId => page.spaceId == spaceId

def assertStandardSpaceRelations (spaceId : String) (categoryId : Option String) (pageIds : List String) :
    Except HttpError Unit := do
  throwIf ((categoryId.bind kb.categories.find).any fun category => category.spaceId != spaceId)
    (.badRequest "Richtlinie und Kategorie müssen demselben Bereich angehören.")
  throwIf (pageIds ≠ [] ∧ kb.livePageCount pageIds (some spaceId) ≠ (Js.distinct pageIds).length)
    (.badRequest "Mindestens eine Wiki-Seite gehört zu einem anderen Bereich.")

end KnowledgeBase

namespace WikiState

variable (st : WikiState)

def setKnowledge (kb : KnowledgeBase) : WikiState := { st with db := { st.db with knowledge := kb } }

variable (order : RowOrder)

/-- `assertAllowed` with a message of its own. -/
def assertAllowedOr (actor : Option AuthenticatedUser) (request : AccessRequest) (message : String) :
    Except HttpError Unit :=
  match actor with
  | none => .ok ()
  | some actor => (st.db.assertAllowed order actor request (some message)).map fun _ => ()

/-- The access check on the category in which an entry is to be, or on its space. -/
def assertDestination (actor : Option AuthenticatedUser) (resource : Resource) (action : Action)
    (categoryId : Option String) (spaceId : String) : Except HttpError Unit :=
  st.assertAllowed order actor
    { resource := resource
      action := action
      targetType := if categoryId.isSome then .category else .space
      targetId := categoryId.getD spaceId }

/-! ## Spaces -/

def ownerActions : List Action := [.read, .create, .update, .delete, .share, .approve, .purge]

/-- `resourceAclEntry.createMany({ …, skipDuplicates: true })` -/
def createOwnerRules (spaceId userId : String) (newId : Action → String) : WikiState :=
  let rule (action : Action) : ResourceAclEntry :=
    ⟨newId action, .user userId, targetKey .space spaceId, action.text, .allow, true⟩
  { st with db := { st.db with
      resourceAclEntries := ownerActions.foldl (fun entries action => (entries.createMany [rule action]).getD entries)
        st.db.resourceAclEntries } }

/-- The owner's rules of a space that becomes restricted. -/
def restrictTo (actor : Option AuthenticatedUser) (spaceId : String) (restricted : Bool)
    (newId : Action → String) : WikiState :=
  match actor with
  | some actor => if restricted then st.createOwnerRules spaceId actor.id newId else st
  | none => st

variable (sameName : String → String → Bool)

/-- `sameName` compares without case. -/
def assertNameAvailable (name : String) (excludeId : Option String) : Except HttpError Unit :=
  throwIf (st.kb.spaces.rows.any fun space => sameName space.name name && excludeId.all (space.id ≠ ·))
    (.conflict "Ein Wissensbereich mit diesem Namen existiert bereits.")

def createSpace (input : CreateKnowledgeSpaceInput) (actor : Option AuthenticatedUser) (c : Outside)
    (newId : Action → String) : Except HttpError WikiState := do
  throwIf (input.visibility = some .restricted ∧ actor.isNone) (.badRequest
    "Zum Erstellen eines eingeschrÃ¤nkten Bereichs wird ein authentifizierter Akteur benÃ¶tigt.")
  st.assertNameAvailable sameName input.name none
  c.check
  let space : KnowledgeSpace :=
    ⟨c.id, input.name, if input.visibility = some .restricted then .restricted
      else .opened, input.enabledKinds.getD [.wiki]⟩
  match st.kb.spaces.createMany [space] with
  | none => .error (.conflict "Name oder Slug des Wissensbereichs ist bereits vergeben.")
  | some spaces =>
    pure
      ((st.setKnowledge { st.kb with spaces := spaces }).restrictTo actor c.id
        (input.visibility = some .restricted) newId)

def updateSpace (id : String) (input : UpdateKnowledgeSpaceInput) (actor : Option AuthenticatedUser) (c : Outside)
    (newId : Action → String) : Except HttpError WikiState := do
  st.assertAllowedOr order actor ⟨.spaces, .update, .space, id⟩ "Wissensbereich wurde nicht gefunden."
  match st.kb.spaces.find id with
  | none => .error spaceNotFound
  | some existing => do
    input.name.forM fun name => checkIf (name ≠ existing.name) (st.assertNameAvailable sameName name (some id))
    c.check
    input.enabledKinds.forM fun enabledKinds => st.kb.assertKindsMayBeDisabled id enabledKinds
    let restricts := input.visibility = some .restricted && existing.visibility ≠ .restricted
    throwIf (restricts ∧ actor.isNone) (.badRequest
      "Zum EinschrÃ¤nken eines Bereichs wird ein authentifizierter Akteur benÃ¶tigt.")
    let spaces :=
      st.kb.spaces.updateMany (fun row => row.id == id) (KnowledgeSpace.write input) fun _ => KnowledgeSpace.write_id
    pure ((st.setKnowledge { st.kb with spaces := spaces }).restrictTo actor id restricts newId)

/-! ## Categories -/

variable (slugify : String → String)

def createCategory (input : CreateCategoryInput) (actor : Option AuthenticatedUser) (c : Outside) :
    Except HttpError WikiState := do
  let scope := input.scope.getD .wiki
  let spaceId ← st.kb.resolveOpenSpace scope input.spaceId
  st.assertAllowed order actor ⟨.categories, .create, .space, spaceId⟩
  let row : Category :=
    { id := c.id
      name := input.name
      slug := uniqueSlug (slugify input.name) (st.takenCategorySlugs c.id scope spaceId)
      scope := scope
      description := input.description
      icon := input.icon
      sortOrder := input.sortOrder.getD 0
      spaceId := spaceId }
  throwIf (st.categoryClash row) .uniqueConstraint
  match st.kb.categories.createMany [row] with
  | none => .error .uniqueConstraint
  | some categories => pure (st.setKnowledge { st.kb with categories := categories })

/-! ## Notes -/

/-- `title?.trim() || null` -/
def noteTitle (title : Option String) : Option String := (title.map Js.trim).filter (· ≠ "")

def createNote (input : CreateNoteInput) (ownerId : String) (actor : Option AuthenticatedUser) (c : Outside) :
    Except HttpError WikiState := do
  let spaceId ← st.kb.resolveNotePlace input.categoryId input.spaceId
  spaceId.forM fun spaceId => st.assertDestination order actor .notes .create input.categoryId spaceId
  c.check
  throwIf ((st.db.directory.users.find ownerId).isNone) .recordNotFound
  match st.kb.notes.createMany [⟨c.id, noteTitle input.title, spaceId, ownerId, input.categoryId⟩] with
  | none => .error .uniqueConstraint
  | some notes => pure (st.setKnowledge { st.kb with notes := notes })

/-- May the caller edit the note? The access rules of the actor decide, or without an actor the shares of the note. -/
def findEditable (id userId : String) (actor : Option AuthenticatedUser) (c : Outside) : Except HttpError Note := do
  c.check
  match actor with
  | some _ =>
    match st.kb.notes.find id with
    | none => .error (.notFound "Notiz wurde nicht gefunden.")
    | some note => do
      st.assertAllowedOr order actor ⟨.notes, .update, .note, id⟩ "Notiz wurde nicht gefunden."
      pure note
  | none =>
    let editor (note : Note) := note.ownerId == userId || st.kb.noteShares.rows.any fun share =>
      share.noteId == note.id && share.userId == userId && share.permission == .edit
    match (st.kb.notes.find id).filter editor with
    | none => .error (.forbidden "Diese Notiz darf nicht bearbeitet werden.")
    | some note => pure note

def updateNote (id : String) (input : UpdateNoteInput) (userId : String) (actor : Option AuthenticatedUser)
    (c : Outside) :
    Except HttpError WikiState := do
  let existing ← st.findEditable order id userId actor c
  let categoryId := input.categoryId.getD existing.categoryId
  let spaceId ← st.kb.resolveNotePlace categoryId (input.spaceId.getD existing.spaceId)
  let assignmentChanged := input.spaceId.isSome || input.categoryId.isSome
  throwIf (assignmentChanged ∧ existing.ownerId ≠ userId) (.forbidden
    "Nur der Besitzer darf eine Notiz in einen anderen Bereich verschieben.")
  spaceId.forM fun spaceId =>
    checkIf assignmentChanged (st.assertDestination order actor .notes .update categoryId spaceId)
  let notes := st.kb.notes.updateMany (fun row => row.id == id)
    (Note.write input (noteTitle (input.title.getD none)) spaceId) fun _ => Note.write_id
  pure (st.setKnowledge { st.kb with notes := notes })

/-! ## Standards -/

def ensureUser (id : String) : Except HttpError Unit :=
  throwIf ((st.db.directory.users.find id).all fun user => !user.isActive)
    (.notFound "Verantwortlicher Benutzer wurde nicht gefunden.")

def validateRelations (categoryId : Option String) (responsibleId : String) (pageIds : List String) :
    Except HttpError Unit := do
  st.ensureUser responsibleId
  throwIf (categoryId.isSome ∧ ¬(categoryId.bind st.kb.categories.find).any fun category => category.scope == .standard)
    notStandardCategory
  throwIf (pageIds ≠ [] ∧ st.kb.livePageCount pageIds none ≠ (Js.distinct pageIds).length)
    (.badRequest "Mindestens eine Wiki-Seite ist ungültig.")

def assertLinkedPagesReadable (actor : Option AuthenticatedUser) (pageIds : List String) : Except HttpError Unit :=
  match actor with
  | none => .ok ()
  | some actor =>
    if pageIds = [] then .ok ()
    else do
      let allowed ← st.db.allowedTargetIds order actor ⟨.pages, .read, .page, pageIds⟩
      throwIf (allowed.length ≠ (Js.distinct pageIds).length)
        (.notFound "Mindestens eine Wiki-Seite wurde nicht gefunden.")

def createStandard (input : Standards.CreateStandardInput) (userId : String) (actor : Option AuthenticatedUser)
    (c : Outside) : Except HttpError WikiState := do
  let spaceId ← st.kb.resolveStandardSpace input.spaceId input.categoryId input.pageIds none
  st.assertDestination order actor .standards .create input.categoryId spaceId
  st.assertLinkedPagesReadable order actor input.pageIds
  st.validateRelations input.categoryId input.responsibleId input.pageIds
  st.kb.assertStandardSpaceRelations spaceId input.categoryId input.pageIds
  c.check
  throwIf ((st.db.directory.users.find userId).isNone) .foreignKey
  match st.kb.standards.createMany [⟨c.id, input.title, spaceId, input.categoryId⟩] with
  | none => .error .uniqueConstraint
  | some standards => pure (st.setKnowledge { st.kb with standards := standards })

def updateStandard (id : String) (input : Standards.UpdateStandardInput) (actor : Option AuthenticatedUser) (c : Outside)
    (details : StandardDetails) : Except HttpError WikiState := do
  st.assertAllowedOr order actor ⟨.standards, .update, .standard, id⟩ "Richtlinie wurde nicht gefunden."
  match st.kb.standards.find id with
  | none => .error (.notFound "Richtlinie wurde nicht gefunden.")
  | some existing => do
    throwIf (details.status = .deprecated) (.badRequest "Veraltete Richtlinien können nicht bearbeitet werden.")
    throwIf (input.mcpVisible = some true ∧ details.status ≠ .active)
      (.badRequest "Nur aktive Richtlinien dürfen für MCP freigegeben werden.")
    if input.contentChange = false ∧ input.mcpVisible.isSome then pure st
    else do
      let categoryId := input.categoryId.getD existing.categoryId
      let spaceId ← st.kb.resolveStandardSpace input.spaceId categoryId details.pages (some existing.spaceId)
      checkIf (input.spaceId.isSome ∨ input.categoryId.isSome)
        (st.assertDestination order actor .standards .update categoryId spaceId)
      st.kb.assertStandardSpaceRelations spaceId categoryId details.pages
      checkIf (input.categoryId.isSome ∨ input.responsibleId.isSome ∨ (input.validFrom.getD none).isSome ∨
          (input.validUntil.getD none).isSome)
        (st.validateRelations (input.categoryId.getD none) (input.responsibleId.getD details.responsibleId) [])
      c.check
      let standards := st.kb.standards.updateMany (fun row => row.id == id) (Standard.write input spaceId) fun _ =>
        Standard.write_id
      pure (st.setKnowledge { st.kb with standards := standards })

end WikiState

/-! ## The calls -/

inductive SpaceCall
  | wiki (call : WikiCall)
  | createSpace (input : CreateKnowledgeSpaceInput) (actor : Option AuthenticatedUser) (c : Outside)
      (newId : Action → String)
  | updateSpace (id : String) (input : UpdateKnowledgeSpaceInput) (actor : Option AuthenticatedUser) (c : Outside)
      (newId : Action → String)
  | createCategory (input : CreateCategoryInput) (actor : Option AuthenticatedUser) (c : Outside)
  | createNote (input : CreateNoteInput) (ownerId : String) (actor : Option AuthenticatedUser) (c : Outside)
  | updateNote (id : String) (input : UpdateNoteInput) (userId : String) (actor : Option AuthenticatedUser) (c : Outside)
  | createStandard (input : Standards.CreateStandardInput) (userId : String)
      (actor : Option AuthenticatedUser) (c : Outside)
  | updateStandard (id : String) (input : Standards.UpdateStandardInput) (actor : Option AuthenticatedUser) (c : Outside)
      (details : StandardDetails)

def WikiState.performSpace (slugify : String → String) (sameName : String → String → Bool) (st : WikiState)
    (order : RowOrder) :
    SpaceCall → Except HttpError WikiState
  | .wiki call => st.perform slugify order call
  | .createSpace input actor c newId => st.createSpace sameName input actor c newId
  | .updateSpace id input actor c newId => st.updateSpace order sameName id input actor c newId
  | .createCategory input actor c => st.createCategory order slugify input actor c
  | .createNote input ownerId actor c => st.createNote order input ownerId actor c
  | .updateNote id input userId actor c => st.updateNote order id input userId actor c
  | .createStandard input userId actor c => st.createStandard order input userId actor c
  | .updateStandard id input actor c details => st.updateStandard order id input actor c details

/-- A call that succeeds; one that fails changes nothing. -/
def WikiState.spaceStep (slugify : String → String) (sameName : String → String → Bool) (st : WikiState)
    (call : RowOrder × SpaceCall) : Option WikiState := (st.performSpace slugify sameName call.1 call.2).toOption

end AdWiki.Wiki
