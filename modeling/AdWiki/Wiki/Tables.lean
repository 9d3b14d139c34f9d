import AdWiki.Lib.Table
import AdWiki.Wiki.Page

/-!
# The tables of the knowledge base

Spaces, their categories, and the three kinds of entries: wiki pages, notes and standards.
-/

namespace AdWiki.Wiki

inductive SpaceVisibility
  | opened
  | restricted
  deriving DecidableEq, Repr

inductive KnowledgeKind
  | wiki
  | note
  | standard
  deriving DecidableEq, Repr

def KnowledgeKind.text : KnowledgeKind → String
  | .wiki => "wiki"
  | .note => "note"
  | .standard => "standard"

structure KnowledgeSpace where
  id : String
  name : String
  visibility : SpaceVisibility
  enabledKinds : List KnowledgeKind
  deriving DecidableEq, Repr

/-- The scope of a category is the kind of the entries it is for. -/
structure Category where
  id : String
  name : String
  slug : String
  scope : KnowledgeKind
  description : Option String
  icon : Option String
  sortOrder : Int
  spaceId : String
  deriving DecidableEq, Repr

structure Note where
  id : String
  title : Option String
  spaceId : Option String
  ownerId : String
  categoryId : Option String
  deriving DecidableEq, Repr

inductive NoteSharePermission
  | view
  | edit
  deriving DecidableEq, Repr

structure NoteShare where
  noteId : String
  userId : String
  permission : NoteSharePermission
  deriving DecidableEq, Repr

/-- `@@id([noteId, userId])`. -/
def NoteShare.key (row : NoteShare) : String × String := (row.noteId, row.userId)

structure Standard where
  id : String
  title : String
  spaceId : String
  categoryId : Option String
  deriving DecidableEq, Repr

/-- A link in the text of a page to another page. -/
structure PageLink where
  sourceId : String
  targetId : String
  deriving DecidableEq, Repr

/-- `@@unique([sourceId, targetId])`. -/
def PageLink.key (row : PageLink) : String × String := (row.sourceId, row.targetId)

structure StandardPageLink where
  standardId : String
  pageId : String
  deriving DecidableEq, Repr

/-- `@@id([standardId, pageId])`. -/
def StandardPageLink.key (row : StandardPageLink) : String × String := (row.standardId, row.pageId)

structure KnowledgeBase where
  spaces : Table KnowledgeSpace.id
  categories : Table Category.id
  pages : Table Page.id
  notes : Table Note.id
  noteShares : Table NoteShare.key
  standards : Table Standard.id

end AdWiki.Wiki
