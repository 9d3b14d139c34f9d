import AdWiki.Access.ResourceAccess
import AdWiki.Lib.Fresh
import AdWiki.Wiki.PageEdits
import Std.Data.String.ToNat

/-!
# The services of pages and categories

`PagesService.create`, `update`, `remove`, `restore` and `permanentRemove`, and `CategoriesService.update` and `remove`,
each executed as a whole. Access checks are made where a call has an actor. Deletes follow the foreign keys of the
schema: a deleted page or category leaves no rule and no boundary behind, and rows that refer to it lose the reference.
`slugify` is any function of the title, so that the results hold for the library's.
-/

namespace AdWiki.Wiki

open Access Fallible
open Edits (pageNotFound versionConflict)

structure CreatePageInput where
  title : String
  spaceId : Option String
  type : PageType
  content : String
  excerpt : Option String
  status : PageStatus
  isPublic : Bool
  mcpVisible : Bool
  categoryId : Option (Option String)
  parentId : Option (Option String)
  deriving DecidableEq, Repr

structure PageUpdateOptions where
  actor : Option AuthenticatedUser
  editorId : Option String
  expectedVersion : Option Nat
  deriving DecidableEq, Repr

structure UpdateCategoryInput where
  name : Option String
  spaceId : Option String
  scope : Option KnowledgeKind
  description : Option String
  icon : Option String
  sortOrder : Option Int
  deriving DecidableEq, Repr

/-- Where a request wants a page to be; a field is `none` where the request leaves it out. -/
structure Assignment where
  spaceId : Option String
  categoryId : Option (Option String)
  parentId : Option (Option String)
  deriving DecidableEq, Repr

def CreatePageInput.assignment (input : CreatePageInput) : Assignment :=
  ⟨input.spaceId, input.categoryId, input.parentId⟩

def UpdatePageInput.assignment (input : UpdatePageInput) : Assignment :=
  ⟨input.spaceId, input.categoryId, input.parentId⟩

namespace Assignment

variable (input : Assignment) (existing : Option Page)

/-- The category that the page is to have, `existing` being the page before an update. -/
def newCategoryId : Option String := input.categoryId.getD (existing.bind Page.categoryId)

/-- The parent that the page is to have. -/
def newParentId : Option String := input.parentId.getD (existing.bind Page.parentId)

end Assignment

/-- The row of a category after the input has been written. -/
def Category.write (input : UpdateCategoryInput) (spaceId : String) (slug : Option String) (row : Category) : Category :=
  { row with
    name := input.name.getD row.name
    spaceId := spaceId
    slug := slug.getD row.slug
    scope := input.scope.getD row.scope
    description := input.description.or row.description
    icon := input.icon.or row.icon
    sortOrder := input.sortOrder.getD row.sortOrder }

@[simp] theorem Category.write_id {input : UpdateCategoryInput} {spaceId : String} {slug : Option String}
    {row : Category} : (row.write input spaceId slug).id = row.id := rfl

def defaultSpaceId : String := "00000000-0000-4000-8000-000000000014"

def trashedPageNotFound (id : String) : HttpError :=
  .notFound ("Gelöschte Seite mit ID \"" ++ id ++ "\" wurde nicht gefunden.")

def categoryNotFound (id : String) : HttpError := .notFound ("Kategorie mit ID \"" ++ id ++ "\" wurde nicht gefunden.")

/-! ## Slugs -/

/-- The candidates for a slug: the base, then the base with a number from 2 on. -/
def slugCandidate (base : String) (counter : Nat) : String :=
  if counter ≤ 1 then base else base ++ "-" ++ Nat.repr counter

/-- The loop of `generateUniqueSlug`, which the services of pages and of categories both have. -/
def uniqueSlug (base : String) (taken : List String) : String :=
  (Fresh.firstFree (slugCandidate base) taken (taken.length + 1) 1).getD base

theorem slugCandidate_inj {base : String} {i j : Nat} (hi : 1 ≤ i) (hj : 1 ≤ j)
    (h : slugCandidate base i = slugCandidate base j) : i = j := by
  have hlong : ∀ {n : Nat}, base ≠ base ++ "-" ++ Nat.repr n := by
    intro n heq
    have hlen := congrArg String.length heq
    have hdash : "-".length = 1 := by decide
    rw [String.length_append, String.length_append, hdash] at hlen
    omega
  unfold slugCandidate at h
  split at h
  · split at h
    · omega
    · exact absurd h hlong
  · split at h
    · exact absurd h.symm hlong
    · exact Nat.repr_injective (String.append_right_inj _ |>.mp h)

/-- The slug is one that is not taken. -/
theorem uniqueSlug_not_mem (base : String) (taken : List String) : uniqueSlug base taken ∉ taken := by
  obtain ⟨slug, hslug⟩ : ∃ slug, Fresh.firstFree (slugCandidate base) taken (taken.length + 1) 1 = some slug :=
    Fresh.firstFree_isSome fun i j hi hj h => slugCandidate_inj hi hj h
  rw [uniqueSlug, hslug]
  exact Fresh.firstFree_not_mem hslug

/-! ## Reads and checks -/

namespace KnowledgeBase

variable (kb : KnowledgeBase)

/-- `SpacesService.resolveOpenSpace`. -/
def resolveOpenSpace (kind : KnowledgeKind) (requestedSpaceId : Option String) : Except HttpError String :=
  match kb.spaces.find (requestedSpaceId.getD defaultSpaceId) with
  | none => .error (.notFound "Wissensbereich wurde nicht gefunden.")
  | some space =>
    if space.enabledKinds.contains kind then .ok space.id
    else .error (.badRequest ("Der Inhaltstyp \"" ++ kind.text ++ "\" ist in diesem Bereich nicht aktiviert."))

/-- A page that is not in the trash. -/
def findLive (id : String) : Option Page := (kb.pages.find id).filter fun page => page.deletedAt.isNone

def findTrashed (id : String) : Option Page := (kb.pages.find id).filter fun page => page.deletedAt.isSome

/-- `ensureCategoryScope`, and the same check again on the row that was read beside it. -/
def ensureCategoryScope (categoryId : Option String) : Except HttpError Unit :=
  throwIf (categoryId.isSome ∧ ¬(categoryId.bind kb.categories.find).any fun category => category.scope == .wiki)
    (.badRequest "Die gewählte Kategorie gehört nicht zum Wiki.")

def resolvePageSpace (input : Assignment) (existing : Option Page) : Except HttpError String := do
  let categoryId := input.newCategoryId existing
  let parentId := input.newParentId existing
  throwIf (parentId.isSome ∧ parentId = existing.map Page.id)
    (.badRequest "Eine Wiki-Seite kann nicht ihr eigener Elternordner sein.")
  let category := categoryId.bind kb.categories.find
  let parent := parentId.bind kb.findLive
  kb.ensureCategoryScope categoryId
  throwIf (parentId.isSome ∧ ¬parent.any fun parent => parent.type == .folder)
    (.badRequest "Der gewählte Elternknoten ist kein Wiki-Ordner.")
  let candidate := input.spaceId.or <| (category.map Category.spaceId).or <|
    (parent.map Page.spaceId).or (existing.map Page.spaceId)
  let spaceId ← kb.resolveOpenSpace .wiki candidate
  throwIf
    ((category.any fun category => category.spaceId != spaceId) ∨ (parent.any fun parent => parent.spaceId != spaceId) ∨
      parent.any fun parent => parent.categoryId != categoryId)
    (.badRequest "Bereich, Kategorie und Elternordner müssen übereinstimmen.")
  pure spaceId

end KnowledgeBase

/-- The tables, and the history of the pages. -/
structure WikiState where
  db : Database
  pageVersions : List PageVersion

namespace WikiState

variable (st : WikiState)

def kb : KnowledgeBase := st.db.knowledge

def setPages (pages : Table Page.id) : WikiState :=
  { st with db := { st.db with knowledge := { st.db.knowledge with pages := pages } } }

/-- The rules and the boundaries of a deleted target go with it. -/
def dropTarget (type : TargetType) (id : String) : WikiState :=
  { st with db := { st.db with
      resourceAclEntries := st.db.resourceAclEntries.deleteMany fun entry => entry.targetKey == targetKey type id
      resourceAclBoundaries := st.db.resourceAclBoundaries.deleteMany fun row => row.targetKey == targetKey type id } }

variable (order : RowOrder)

/-- `if (actor && this.access) await this.access.assertAllowed(…)`. -/
def assertAllowed (actor : Option AuthenticatedUser) (request : AccessRequest) : Except HttpError Unit :=
  match actor with
  | none => .ok ()
  | some actor => (st.db.assertAllowed order actor request none).map fun _ => ()

/-- May the actor do something to all of the targets? `message` is the refusal. -/
def assertAllAllowed (actor : AuthenticatedUser) (request : BatchAccessRequest) (message : HttpError) :
    Except HttpError Unit := do
  let allowed ← st.db.allowedTargetIds order actor request
  throwIf (allowed.length ≠ request.targetIds.length) message

def assertPageDestination (actor : Option AuthenticatedUser) (input : Assignment) (spaceId : String) (action : Action)
    (existing : Option Page) : Except HttpError Unit :=
  let parentId := input.newParentId existing
  let categoryId := input.newCategoryId existing
  st.assertAllowed order actor
    { resource := .pages
      action := action
      targetType := if parentId.isSome then .page else if categoryId.isSome then .category else .space
      targetId := (parentId.or categoryId).getD spaceId }

/-! ## Pages -/

variable (slugify : String → String)

/-- The row that `create` inserts. -/
def newPage (id : String) (input : CreatePageInput) (spaceId authorId : String) : Page where
  id := id
  title := input.title
  slug := uniqueSlug (slugify input.title) (st.kb.pages.rows.map Page.slug)
  type := input.type
  content := input.content
  excerpt := input.excerpt
  status := input.status
  isPublic := input.isPublic
  mcpVisible := input.mcpVisible
  version := 1
  sortOrder := 0
  deletedAt := none
  deletedById := none
  spaceId := spaceId
  authorId := authorId
  categoryId := input.categoryId.getD none
  parentId := input.parentId.getD none

/-- `create`; the new id comes from outside. -/
def create (id : String) (input : CreatePageInput) (authorId : String) (actor : Option AuthenticatedUser) :
    Except HttpError WikiState := do
  let spaceId ← st.kb.resolvePageSpace input.assignment none
  st.assertPageDestination order actor input.assignment spaceId .create none
  throwIf ((st.db.directory.users.find authorId).isNone) .recordNotFound
  match st.kb.pages.createMany [st.newPage slugify id input spaceId authorId] with
  | none => .error .uniqueConstraint
  | some pages => pure (st.setPages pages)

/-- The space that an update leads to: it is resolved where the update moves the page. -/
def updatedSpace (input : UpdatePageInput) (existing : Page) (actor : Option AuthenticatedUser) :
    Except HttpError String :=
  if input.assignmentChanged then do
    let spaceId ← st.kb.resolvePageSpace input.assignment (some existing)
    st.assertPageDestination order actor input.assignment spaceId .update (some existing)
    pure spaceId
  else .ok existing.spaceId

def update (id : String) (input : UpdatePageInput) (options : PageUpdateOptions) : Except HttpError WikiState :=
  match st.kb.findLive id with
  | none => .error (pageNotFound id)
  | some existing => do
    st.assertAllowed order options.actor ⟨.pages, .update, .page, id⟩
    throwIf (options.expectedVersion.any (· ≠ existing.version))
      (versionConflict (options.expectedVersion.getD 0) existing.version)
    let spaceId ← st.updatedSpace order input existing options.actor
    let liveChildren := st.kb.pages.rows.countP fun page => page.parentId == some id && page.deletedAt.isNone
    throwIf (spaceId ≠ existing.spaceId ∧ 0 < liveChildren) (.badRequest
      "Ein Ordner mit untergeordneten Inhalten kann nicht in einen anderen Bereich verschoben werden.")
    throwIf ((st.db.directory.users.find (options.editorId.getD existing.authorId)).isNone) .recordNotFound
    let pages := st.kb.pages.updateMany (fun page => page.id == id) (existing.write input spaceId) fun _ => Page.write_id
    pure { st.setPages pages with pageVersions := st.pageVersions ++ [existing.snapshot input options.editorId] }

/-- May the actor move what is in the folder? -/
def assertChildrenMovable (existing : Page) (actor : Option AuthenticatedUser) : Except HttpError Unit :=
  match actor with
  | none => .ok ()
  | some actor =>
    if existing.type = .folder then
      let children := st.kb.pages.findMany order fun page => page.parentId == some existing.id && page.deletedAt.isNone
      st.assertAllAllowed order actor ⟨.pages, .update, .page, children.map Page.id⟩
        (.notFound "Ordner wurde nicht gefunden oder enthÃ¤lt nicht verschiebbare Inhalte.")
    else .ok ()

def remove (id deletedById : String) (now : Time) (actor : Option AuthenticatedUser) : Except HttpError WikiState :=
  match st.kb.findLive id with
  | none => .error (pageNotFound id)
  | some existing => do
    st.assertAllowed order actor ⟨.pages, .delete, .page, id⟩
    st.assertChildrenMovable order existing actor
    throwIf ((st.db.directory.users.find deletedById).isNone) .foreignKey
    -- the pages of a folder move up to the category
    let moved := if existing.type = .folder then
        st.kb.pages.updateMany (fun page => page.parentId == some id && page.deletedAt.isNone)
          (fun page => { page with parentId := none }) fun _ => rfl
      else st.kb.pages
    pure (st.setPages (moved.updateMany (fun page => page.id == id)
      (fun page => { page with deletedAt := some now, deletedById := some deletedById }) fun _ => rfl))

def restore (id : String) (actor : Option AuthenticatedUser) : Except HttpError WikiState :=
  match st.kb.findTrashed id with
  | none => .error (trashedPageNotFound id)
  | some _ => do
    st.assertAllowed order actor ⟨.pages, .update, .page, id⟩
    pure (st.setPages (st.kb.pages.updateMany (fun page => page.id == id)
      (fun page => { page with deletedAt := none, deletedById := none }) fun _ => rfl))

/-- The rows that are left after a page has been deleted; a page under it loses its parent. -/
def withoutPage (pages : Table Page.id) (id : String) : Table Page.id :=
  (pages.deleteMany fun page => page.id == id).updateMany (fun page => page.parentId == some id)
    (fun page => { page with parentId := none }) fun _ => rfl

def permanentRemove (id : String) (actor : Option AuthenticatedUser) : Except HttpError WikiState :=
  match st.kb.findTrashed id with
  | none => .error (trashedPageNotFound id)
  | some _ => do
    st.assertAllowed order actor ⟨.pages, .purge, .page, id⟩
    let st' := (st.setPages (withoutPage st.kb.pages id)).dropTarget .page id
    pure { st' with pageVersions := Rows.deleteMany (fun row => row.pageId == id) st.pageVersions }

/-! ## Categories -/

/-- How many entries use the category. -/
def categoryUses (id : String) : Nat :=
  (st.kb.pages.rows.countP fun page => page.categoryId == some id) +
    (st.kb.notes.rows.countP fun note => note.categoryId == some id) +
    st.kb.standards.rows.countP fun standard => standard.categoryId == some id

/-- The space that an update of a category leads to. -/
def updatedCategorySpace (input : UpdateCategoryInput) (existing : Category)
    (actor : Option AuthenticatedUser) : Except HttpError String :=
  match input.spaceId with
  | none => .ok existing.spaceId
  | some requested => do
    let spaceId ← st.kb.resolveOpenSpace (input.scope.getD existing.scope) (some requested)
    if spaceId ≠ existing.spaceId then
      st.assertAllowed order actor ⟨.categories, .update, .space, spaceId⟩
      pure spaceId
    else pure spaceId

/-- The slugs that `generateUniqueSlug` finds taken. -/
def takenCategorySlugs (id : String) (scope : KnowledgeKind) (spaceId : String) : List String :=
  (st.kb.categories.rows.filter fun row => row.spaceId == spaceId && row.scope == scope && row.id != id).map Category.slug

/-- `@@unique([spaceId, scope, name])` and `@@unique([spaceId, scope, slug])`. -/
def categoryClash (row : Category) : Bool :=
  st.kb.categories.rows.any fun other => other.id != row.id && other.spaceId == row.spaceId && other.scope == row.scope &&
    (other.name == row.name || other.slug == row.slug)

def updateCategory (id : String) (input : UpdateCategoryInput) (actor : Option AuthenticatedUser) :
    Except HttpError WikiState :=
  match st.kb.categories.find id with
  | none => .error (categoryNotFound id)
  | some existing => do
    st.assertAllowed order actor ⟨.categories, .update, .category, id⟩
    let spaceId ← st.updatedCategorySpace order input existing actor
    throwIf ((input.scope.any (· ≠ existing.scope) ∨ spaceId ≠ existing.spaceId) ∧ 0 < st.categoryUses id) (.badRequest
      "Eine verwendete Kategorie kann nicht in einen anderen Bereich verschoben werden.")
    let slug := input.name.map fun name =>
      uniqueSlug (slugify name) (st.takenCategorySlugs id (input.scope.getD existing.scope) spaceId)
    throwIf (st.categoryClash (existing.write input spaceId slug)) .uniqueConstraint
    let categories := st.kb.categories.updateMany (fun row => row.id == id) (Category.write input spaceId slug) fun _ =>
      Category.write_id
    pure { st with db := { st.db with knowledge := { st.db.knowledge with categories := categories } } }

/-- The tables after a category has been deleted; what is in it loses its category. -/
def withoutCategory (kb : KnowledgeBase) (id : String) : KnowledgeBase :=
  { kb with
    categories := kb.categories.deleteMany fun row => row.id == id
    pages :=
      kb.pages.updateMany (fun row => row.categoryId == some id) (fun row => { row with categoryId := none }) fun _ => rfl
    notes :=
      kb.notes.updateMany (fun row => row.categoryId == some id) (fun row => { row with categoryId := none }) fun _ => rfl
    standards := kb.standards.updateMany (fun row => row.categoryId == some id)
      (fun row => { row with categoryId := none }) fun _ => rfl }

/-- May the actor move what is in the category? -/
def assertContentsMovable (id : String) (actor : Option AuthenticatedUser) : Except HttpError Unit :=
  match actor with
  | none => .ok ()
  | some actor => do
    let pages := st.kb.pages.findMany order fun row => row.categoryId == some id
    let notes := st.kb.notes.findMany order fun row => row.categoryId == some id
    let standards := st.kb.standards.findMany order fun row => row.categoryId == some id
    let allowedPages ← st.db.allowedTargetIds order actor ⟨.pages, .update, .page, pages.map Page.id⟩
    let allowedNotes ← st.db.allowedTargetIds order actor ⟨.notes, .update, .note, notes.map Note.id⟩
    let allowedStandards ← st.db.allowedTargetIds order actor ⟨.standards, .update, .standard, standards.map Standard.id⟩
    throwIf (allowedPages.length ≠ pages.length ∨ allowedNotes.length ≠ notes.length ∨
        allowedStandards.length ≠ standards.length)
      (.notFound "Kategorie wurde nicht gefunden oder enthÃ¤lt nicht verschiebbare Inhalte.")

def removeCategory (id : String) (actor : Option AuthenticatedUser) : Except HttpError WikiState :=
  match st.kb.categories.find id with
  | none => .error (categoryNotFound id)
  | some _ => do
    st.assertAllowed order actor ⟨.categories, .delete, .category, id⟩
    st.assertContentsMovable order id actor
    pure ({ st with db := { st.db with knowledge := withoutCategory st.db.knowledge id } }.dropTarget .category id)

end WikiState

/-! ## Runs -/

inductive WikiCall
  | create (id : String) (input : CreatePageInput) (authorId : String) (actor : Option AuthenticatedUser)
  | update (id : String) (input : UpdatePageInput) (options : PageUpdateOptions)
  | remove (id deletedById : String) (now : Time) (actor : Option AuthenticatedUser)
  | restore (id : String) (actor : Option AuthenticatedUser)
  | permanentRemove (id : String) (actor : Option AuthenticatedUser)
  | updateCategory (id : String) (input : UpdateCategoryInput) (actor : Option AuthenticatedUser)
  | removeCategory (id : String) (actor : Option AuthenticatedUser)

/-- A call as a whole, with the order in which its queries return their rows. -/
def WikiState.perform (slugify : String → String) (st : WikiState) (order : RowOrder) :
    WikiCall → Except HttpError WikiState
  | .create id input authorId actor => st.create order slugify id input authorId actor
  | .update id input options => st.update order id input options
  | .remove id deletedById now actor => st.remove order id deletedById now actor
  | .restore id actor => st.restore order id actor
  | .permanentRemove id actor => st.permanentRemove order id actor
  | .updateCategory id input actor => st.updateCategory order slugify id input actor
  | .removeCategory id actor => st.removeCategory order id actor

/-- A call that succeeds; one that fails changes nothing. -/
def WikiState.step (slugify : String → String) (st : WikiState) (call : RowOrder × WikiCall) : Option WikiState :=
  (st.perform slugify call.1 call.2).toOption

end AdWiki.Wiki
