import AdWiki.Common.Http

/-!
# Page rows

A row of the table `pages`, the input of `PagesService.update`, and what the update writes. A field of the input is
`none` where the request leaves it out; a nullable field that is sent as null is `some none`.
-/

namespace AdWiki.Wiki

inductive PageType
  | page
  | folder
  deriving DecidableEq, Repr

inductive PageStatus
  | draft
  | published
  | archived
  deriving DecidableEq, Repr

/-- The columns that the services of this development read or write. -/
structure Page where
  id : String
  title : String
  slug : String
  type : PageType
  content : String
  excerpt : Option String
  status : PageStatus
  isPublic : Bool
  mcpVisible : Bool
  version : Nat
  sortOrder : Int
  deletedAt : Option Time
  deletedById : Option String
  spaceId : String
  authorId : String
  categoryId : Option String
  parentId : Option String
  deriving DecidableEq, Repr

structure PageVersion where
  pageId : String
  title : String
  content : String
  version : Nat
  changeMessage : Option String
  authorId : String
  deriving DecidableEq, Repr

structure UpdatePageInput where
  title : Option String
  spaceId : Option String
  content : Option String
  excerpt : Option (Option String)
  status : Option PageStatus
  isPublic : Option Bool
  mcpVisible : Option Bool
  type : Option PageType
  categoryId : Option (Option String)
  parentId : Option (Option String)
  sortOrder : Option Int
  changeMessage : Option String
  deriving DecidableEq, Repr

/-- An input that leaves everything out. -/
def UpdatePageInput.empty : UpdatePageInput :=
  ⟨none, none, none, none, none, none, none, none, none, none, none, none⟩

/-- Does the update move the page? -/
def UpdatePageInput.assignmentChanged (input : UpdatePageInput) : Bool :=
  input.spaceId.isSome || input.categoryId.isSome || input.parentId.isSome

/-- The row after `data` is written: the fields of the input, and a version one above that of the row `existing`
which was read before. -/
def Page.write (existing : Page) (input : UpdatePageInput) (spaceId : String) (row : Page) : Page :=
  { row with
    version := existing.version + 1
    spaceId := spaceId
    title := input.title.getD row.title
    content := input.content.getD row.content
    excerpt := input.excerpt.getD row.excerpt
    status := input.status.getD row.status
    isPublic := input.isPublic.getD row.isPublic
    mcpVisible := input.mcpVisible.getD row.mcpVisible
    type := input.type.getD row.type
    sortOrder := input.sortOrder.getD row.sortOrder
    categoryId := input.categoryId.getD row.categoryId
    parentId := input.parentId.getD row.parentId }

/-- The row of `page_versions` that keeps the text that was read. -/
def Page.snapshot (existing : Page) (input : UpdatePageInput) (editorId : Option String) : PageVersion where
  pageId := existing.id
  title := existing.title
  content := existing.content
  version := existing.version
  changeMessage := input.changeMessage
  authorId := editorId.getD existing.authorId

variable {existing row : Page} {input : UpdatePageInput} {spaceId : String}

@[simp] theorem Page.write_id : (existing.write input spaceId row).id = row.id := rfl
@[simp] theorem Page.write_version : (existing.write input spaceId row).version = existing.version + 1 := rfl
@[simp] theorem Page.write_spaceId : (existing.write input spaceId row).spaceId = spaceId := rfl
@[simp] theorem Page.write_deletedAt : (existing.write input spaceId row).deletedAt = row.deletedAt := rfl
@[simp] theorem Page.write_categoryId :
    (existing.write input spaceId row).categoryId = input.categoryId.getD row.categoryId := rfl
@[simp] theorem Page.write_parentId :
    (existing.write input spaceId row).parentId = input.parentId.getD row.parentId := rfl

end AdWiki.Wiki
