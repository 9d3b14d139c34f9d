import AdWiki.Access.Readable
import AdWiki.Common.Sql
import AdWiki.Lib.Utf8
import AdWiki.Lib.Paging
import AdWiki.Wiki.Tags
import Mathlib

/-!
# The global search

`SearchService.globalSearch`: one query over pages, notes, standards, media and tags. What PostgreSQL computes from texts
(`Postgres`) and the order in which it returns rows that tie (`Sorting`) are parameters.
-/

namespace AdWiki.Search

open Access Wiki Fallible

/-! ## The tables -/

structure NoteColumns where
  content : String
  deletedAt : Option Time
  updatedAt : Time
  deriving DecidableEq, Repr

structure StandardColumns where
  slug : String
  description : String
  updatedAt : Time
  deriving DecidableEq, Repr

structure TagsOnPages where
  pageId : String
  tagId : String
  deriving DecidableEq, Repr

def TagsOnPages.key (row : TagsOnPages) : String × String := (row.pageId, row.tagId)

structure TagsOnNotes where
  noteId : String
  tagId : String
  deriving DecidableEq, Repr

def TagsOnNotes.key (row : TagsOnNotes) : String × String := (row.noteId, row.tagId)

structure Media where
  id : String
  filename : String
  altText : Option String
  createdAt : Time
  deriving DecidableEq, Repr

structure PageMedia where
  pageId : String
  mediaId : String
  deriving DecidableEq, Repr

def PageMedia.key (row : PageMedia) : String × String := (row.pageId, row.mediaId)

/-- The tables; the further columns of a row are found by its id. -/
structure SearchStore where
  db : Database
  pageUpdatedAt : String → Time
  noteColumns : String → NoteColumns
  standardColumns : String → StandardColumns
  tags : Table Tag.id
  tagsOnPages : Table TagsOnPages.key
  tagsOnNotes : Table TagsOnNotes.key
  media : Table Media.id
  pageMedia : Table PageMedia.key

/-! ## Queries and results -/

inductive FilterType
  | pages
  | notes
  | standards
  | media
  deriving DecidableEq, Repr

/-- What `GlobalSearchQuerySchema` lets through. -/
structure GlobalSearchQuery where
  q : String
  types : Option (List FilterType)
  page : Nat
  limit : Nat
  page_pos : 0 < page
  limit_pos : 0 < limit
  limit_le : limit ≤ 100

inductive ResultType
  | page
  | note
  | standard
  | media
  | tag
  deriving DecidableEq, Repr

inductive MatchField
  | title
  | content
  | description
  | filename
  | altText
  | tag
  deriving DecidableEq, Repr

/-- A row of the common table expression `results`. -/
structure ResultRow (Rank : Type) where
  type : ResultType
  id : String
  title : String
  excerpt : Option String
  matchField : MatchField
  updatedAt : Time
  slug : Option String
  rank : Rank
  deriving DecidableEq

structure GlobalSearchResult where
  type : ResultType
  id : String
  title : String
  excerpt : Option String
  matchField : MatchField
  updatedAt : Time
  url : String
  deriving DecidableEq, Repr

structure GlobalSearchMeta where
  total : Nat
  page : Nat
  perPage : Nat
  query : String
  deriving DecidableEq, Repr

structure GlobalSearchResponse where
  data : List GlobalSearchResult
  info : GlobalSearchMeta
  deriving DecidableEq, Repr

/-- What the query asks PostgreSQL of texts, and the arithmetic and the orders of its types. -/
structure Postgres (Rank : Type) where
  /-- `to_tsvector('german', text) @@ plainto_tsquery('german', q)` -/
  tsMatches : String → String → Bool
  tsRank : String → String → Rank
  /-- `text ILIKE pattern` -/
  ilike : String → String → Bool
  lower : String → String
  /-- `regexp_replace(text, '<[^>]+>', ' ', 'g')` -/
  stripTags : String → String
  float8 : ℚ → Rank
  add : Rank → Rank → Rank
  rankLe : Rank → Rank → Bool
  titleLe : String → String → Bool
  rankLe_trans : ∀ a b c, rankLe a b → rankLe b c → rankLe a c
  rankLe_total : ∀ a b, rankLe a b ∨ rankLe b a
  titleLe_trans : ∀ a b c, titleLe a b → titleLe b c → titleLe a c
  titleLe_total : ∀ a b, titleLe a b ∨ titleLe b a

def pattern (q : String) : String := "%" ++ q ++ "%"

def isUnreserved (c : Char) : Bool := c.isAlphanum && c.toNat < 128 || "-_.!~*'()".toList.contains c

def hexDigit (n : Nat) : Char := (Nat.digitChar n).toUpper

def encodeURIComponent (text : String) : String :=
  String.ofList (text.toList.flatMap fun c =>
    if isUnreserved c then [c]
    else (Utf8.encode [c]).flatMap fun byte => ['%', hexDigit (byte.toNat / 16), hexDigit (byte.toNat % 16)])

def resultUrl {Rank : Type} (row : ResultRow Rank) : String :=
  match row.type with
  | .page => "/wiki/" ++ row.slug.getD "null"
  | .note => "/notes?note=" ++ row.id
  | .standard => "/standards?standard=" ++ row.id
  | .media => "/media?media=" ++ row.id
  | .tag => "/search?q=" ++ encodeURIComponent row.title ++ "&types=pages,notes"

def toResult {Rank : Type} (row : ResultRow Rank) : GlobalSearchResult where
  type := row.type
  id := row.id
  title := row.title
  excerpt := row.excerpt
  matchField := row.matchField
  updatedAt := row.updatedAt
  url := resultUrl row

/-- `ORDER BY rank DESC, updated_at DESC, title ASC`: the first row may come before the second. -/
def ResultRow.le {Rank : Type} (pg : Postgres Rank) (a b : ResultRow Rank) : Bool :=
  if pg.rankLe a.rank b.rank && pg.rankLe b.rank a.rank then
    if a.updatedAt = b.updatedAt then pg.titleLe a.title b.title else decide (b.updatedAt < a.updatedAt)
  else pg.rankLe b.rank a.rank

/-- The order in which one query returns the rows. -/
structure Sorting {Rank : Type} (pg : Postgres Rank) where
  sort : List (ResultRow Rank) → List (ResultRow Rank)
  sorts : ∀ rows, Paging.SortOf (ResultRow.le pg) rows (sort rows)

/-! ## What the user may read -/

/-- The permissions and the visible ids that the query is built from. -/
structure SearchAccess where
  canReadPages : Bool
  canReadNotes : Bool
  canReadStandards : Bool
  canReadMedia : Bool
  allowedPageIds : List String
  allowedNoteIds : List String
  allowedStandardIds : List String
  deriving DecidableEq, Repr

def GlobalSearchQuery.selects (query : GlobalSearchQuery) (type : FilterType) : Bool :=
  (query.types.getD [.pages, .notes, .standards, .media]).contains type

section Read

variable (order : RowOrder) (store : SearchStore) (query : GlobalSearchQuery) (user : AuthenticatedUser)

def hasPermission (p : Permission) : Bool :=
  if user.isProtected = some true ∧ user.authenticationMethod ≠ some .apiKey then true
  else if user.apiKeyPermissions.any fun permissions => !permissions.any fun permission => permission == p then false
  else ((store.db.directory.override user.id p).or (store.db.directory.acl user.roleId p)).getD false

def canRead (type : FilterType) (resource : Resource) : Bool :=
  query.selects type && hasPermission store user ⟨resource, .read⟩

/-- The notes of which the ACLs decide: those in a space, own ones and shared ones. -/
def isNoteCandidate (note : Note) : Bool :=
  (store.noteColumns note.id).deletedAt.isNone &&
    (note.spaceId.isNone && (note.ownerId == user.id ||
      store.db.knowledge.noteShares.rows.any fun share => share.noteId == note.id && share.userId == user.id) ||
        note.spaceId.isSome)

def isPageCandidate (canReadPages : Bool) (page : Page) : Bool :=
  page.deletedAt.isNone && page.type == .page && (!canReadPages || page.status == .published)

def allowedIds {α : Type} (resource : Resource) (type : TargetType) (key : α → String) (rows : List α) :
    Except HttpError (List String) :=
  store.db.allowedTargetIds order user ⟨resource, .read, type, rows.map key⟩

def searchAccess : Except HttpError SearchAccess := do
  let canReadPages := canRead store query user .pages .pages
  let canReadNotes := canRead store query user .notes .notes
  let canReadStandards := canRead store query user .standards .standards
  let canReadMedia := canRead store query user .media .media
  let kb := store.db.knowledge
  let pageCandidates :=
    if canReadPages || canReadMedia then kb.pages.findMany order (isPageCandidate canReadPages) else []
  let noteCandidates := if canReadNotes then kb.notes.findMany order (isNoteCandidate store user) else []
  let standardCandidates := if canReadStandards then kb.standards.findMany order fun _ => true else []
  let allowedPageIds ← allowedIds order store user .pages .page Page.id pageCandidates
  let allowedNoteIds ← allowedIds order store user .notes .note Note.id noteCandidates
  let allowedStandardIds ← allowedIds order store user .standards .standard Standard.id standardCandidates
  pure ⟨canReadPages, canReadNotes, canReadStandards, canReadMedia, allowedPageIds, allowedNoteIds, allowedStandardIds⟩

end Read

/-! ## The branches of the query -/

section Branches

variable {Rank : Type} (pg : Postgres Rank) (store : SearchStore) (q : String) (now : Time) (access : SearchAccess)

def isLike (text : String) : Bool := pg.ilike text (pattern q)

/-- `CASE WHEN condition THEN value ELSE 0.0 END` -/
def bonus (condition : Bool) (value : ℚ) : Rank := pg.float8 (if condition then value else 0)

def isTaggedPage (pageId : String) : Bool := store.tagsOnPages.rows.any fun link =>
  link.pageId == pageId && (store.tags.find link.tagId).any fun tag => isLike pg q tag.name

def isTaggedNote (noteId : String) : Bool := store.tagsOnNotes.rows.any fun link =>
  link.noteId == noteId && (store.tags.find link.tagId).any fun tag => isLike pg q tag.name

def pageMatches (page : Page) : Bool :=
  pg.tsMatches (page.title ++ " " ++ page.content) q || isLike pg q page.title || isLike pg q page.content ||
    isTaggedPage pg store q page.id

def pageRow (page : Page) : ResultRow Rank where
  type := .page
  id := page.id
  title := page.title
  excerpt := some ((Sql.nullif page.excerpt).getD (Sql.left 280 (pg.stripTags page.content)))
  matchField := if isLike pg q page.title then .title else if isTaggedPage pg store q page.id then .tag else .content
  updatedAt := store.pageUpdatedAt page.id
  slug := some page.slug
  rank := pg.add (pg.add (pg.tsRank (page.title ++ " " ++ page.content) q) (bonus pg (isLike pg q page.title) 1))
    (bonus pg (isTaggedPage pg store q page.id) (1 / 2))

def noteText (note : Note) : String := note.title.getD "" ++ " " ++ (store.noteColumns note.id).content

def noteMatches (note : Note) : Bool :=
  pg.tsMatches (noteText store note) q || note.title.any (isLike pg q) ||
    isLike pg q (store.noteColumns note.id).content ||
    isTaggedNote pg store q note.id

def noteRow (note : Note) : ResultRow Rank :=
  let text := pg.stripTags (store.noteColumns note.id).content
  { type := .note
    id := note.id
    title := (Sql.nullif note.title).getD (Sql.left 80 text)
    excerpt := some (Sql.left 280 text)
    matchField :=
      if note.title.any (isLike pg q) then .title else if isTaggedNote pg store q note.id then .tag else .content
    updatedAt := (store.noteColumns note.id).updatedAt
    slug := none
    rank := pg.add (pg.add (pg.tsRank (noteText store note) q) (bonus pg (note.title.any (isLike pg q)) 1))
      (bonus pg (isTaggedNote pg store q note.id) (1 / 2)) }

def standardText (standard : Standard) : String :=
  standard.title ++ " " ++ (store.standardColumns standard.id).description

def standardMatches (standard : Standard) : Bool :=
  pg.tsMatches (standardText store standard) q || isLike pg q standard.title ||
    isLike pg q (store.standardColumns standard.id).description

def standardRow (standard : Standard) : ResultRow Rank where
  type := .standard
  id := standard.id
  title := standard.title
  excerpt := some (Sql.left 280 (pg.stripTags (store.standardColumns standard.id).description))
  matchField := if isLike pg q standard.title then .title else .description
  updatedAt := (store.standardColumns standard.id).updatedAt
  slug := some (store.standardColumns standard.id).slug
  rank := pg.add (pg.tsRank (standardText store standard) q) (bonus pg (isLike pg q standard.title) 1)

def mediaMatches (media : Media) : Bool := isLike pg q media.filename || media.altText.any (isLike pg q)

/-- Media without links, and where pages are allowed those that one of these links. -/
def linkedMediaVisibility (media : Media) : Bool :=
  !(store.pageMedia.rows.any fun link => link.mediaId == media.id) ||
    store.pageMedia.rows.any fun link => link.mediaId == media.id && access.allowedPageIds.contains link.pageId

def mediaRow (media : Media) : ResultRow Rank where
  type := .media
  id := media.id
  title := media.filename
  excerpt := media.altText
  matchField := if isLike pg q media.filename then .filename else .altText
  updatedAt := media.createdAt
  slug := none
  rank := pg.add (pg.add (bonus pg (pg.lower media.filename == pg.lower q) 2) (bonus pg (isLike pg q media.filename) 1))
    (bonus pg (media.altText.any (isLike pg q)) (1 / 2))

/-- The pages that the query finds, without the search term. -/
def isVisiblePage (page : Page) : Bool :=
  page.status == .published && page.type == .page && page.deletedAt.isNone && access.allowedPageIds.contains page.id

def isVisibleNote (note : Note) : Bool :=
  (store.noteColumns note.id).deletedAt.isNone && access.allowedNoteIds.contains note.id

def taggedPages (tag : Tag) : List Page := store.db.knowledge.pages.rows.filter fun page =>
  isVisiblePage access page && store.tagsOnPages.rows.any fun link => link.tagId == tag.id && link.pageId == page.id

def taggedNotes (tag : Tag) : List Note := store.db.knowledge.notes.rows.filter fun note =>
  isVisibleNote store access note && store.tagsOnNotes.rows.any fun link => link.tagId == tag.id && link.noteId == note.id

def searchesPages : Bool := access.canReadPages && access.allowedPageIds.length > 0

def searchesNotes : Bool := access.canReadNotes && access.allowedNoteIds.length > 0

/-- The conditions of which one makes a tag visible. -/
def tagVisibility (tag : Tag) : List Bool :=
  (if searchesPages access then [!(taggedPages store access tag).isEmpty] else []) ++
    if searchesNotes access then [!(taggedNotes store access tag).isEmpty] else []

/-- The maximum of no rows is null. -/
def tagTimestamps (tag : Tag) : List (Option Time) :=
  (if searchesPages access then
    [((taggedPages store access tag).map fun page => store.pageUpdatedAt page.id).max?] else []) ++
    if searchesNotes access then
      [((taggedNotes store access tag).map fun note => (store.noteColumns note.id).updatedAt).max?] else []

/-- `GREATEST` passes over null. -/
def greatest (timestamps : List (Option Time)) : Option Time := (timestamps.filterMap id).max?

def tagRowAt (tag : Tag) (time : Time) : ResultRow Rank where
  type := .tag
  id := tag.id
  title := tag.name
  excerpt := none
  matchField := .tag
  updatedAt := time
  slug := some tag.slug
  rank := pg.float8 (if pg.lower tag.name == pg.lower q then 2 else 1)

def tagRow (tag : Tag) : ResultRow Rank := tagRowAt pg q tag ((greatest (tagTimestamps store access tag)).getD now)

def pageBranch : List (ResultRow Rank) :=
  (store.db.knowledge.pages.rows.filter fun page => isVisiblePage access page && pageMatches pg store q page).map
    (pageRow pg store q)

def noteBranch : List (ResultRow Rank) :=
  (store.db.knowledge.notes.rows.filter fun note => isVisibleNote store access note && noteMatches pg store q note).map
    (noteRow pg store q)

def standardBranch : List (ResultRow Rank) :=
  (store.db.knowledge.standards.rows.filter fun standard =>
    access.allowedStandardIds.contains standard.id && standardMatches pg store q standard).map (standardRow pg store q)

def mediaBranch : List (ResultRow Rank) :=
  (store.media.rows.filter fun media => linkedMediaVisibility store access media && mediaMatches pg q media).map
    (mediaRow pg q)

def tagBranch : List (ResultRow Rank) :=
  (store.tags.rows.filter fun tag => isLike pg q tag.name && (tagVisibility store access tag).any id).map
    (tagRow pg store q now access)

/-- The branches that are put together with `UNION ALL`. -/
def branches (types : Option (List FilterType)) : List (List (ResultRow Rank)) :=
  (if searchesPages access then [pageBranch pg store q access] else []) ++
  (if searchesNotes access then [noteBranch pg store q access] else []) ++
  (if access.canReadStandards && access.allowedStandardIds.length > 0 then [standardBranch pg store q access] else []) ++
  (if access.canReadMedia then [mediaBranch pg store q access] else []) ++
  if types.isNone && (access.canReadPages || access.canReadNotes) && (searchesPages access || searchesNotes access) then
    [tagBranch pg store q now access]
  else []

end Branches

/-- One request. -/
def globalSearch {Rank : Type} (pg : Postgres Rank) (order : RowOrder) (store : SearchStore)
    (sorting : Sorting pg) (now : Time)
    (query : GlobalSearchQuery) (user : AuthenticatedUser) : Except HttpError GlobalSearchResponse := do
  let access ← searchAccess order store query user
  let branches := branches pg store query.q now access query.types
  if branches = [] then pure ⟨[], ⟨0, query.page, query.limit, query.q⟩⟩
  else
    let results := branches.flatten
    let rows := ((sorting.sort results).drop ((query.page - 1) * query.limit)).take query.limit |>.map fun row =>
      (row, results.length)
    pure ⟨rows.map fun row => toResult row.1, ⟨(rows.head?.map Prod.snd).getD 0, query.page, query.limit, query.q⟩⟩

end AdWiki.Search
