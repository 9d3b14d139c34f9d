import AdWiki.Audit.AuditLog
import AdWiki.Knowledge.KnowledgeSearch
import Mathlib

/-!
# Reading lists page after page

The lists of the knowledge of an actor, the search in it and the audit log are read with cursors. In a fixed state of the
tables, the calls from the first one on end, and every visible row is returned once, in the order of the list. The first
call is refused exactly where the context lacks the scope or an actor, a visible row has no well-formed hierarchy, or a
bound of the audit log is no date.

* `CursorPagination`: what is said of each list and of each cursor.
* `cursor_pagination`: it holds for every state, actor, filter and limit.
-/

namespace AdWiki.Knowledge.Lists

open Access Cursor Keyset TagSuggestions

section Statement

variable {Key Score Instant : Type} [LinearOrder Key] [LinearOrder Score] [LinearOrder Instant]
  (collation : Collation Key)
  (pg : Postgres Score) (numbers : Numbers Score) (hashing : Hashing) (dates : Audit.Dates Instant) (order : RowOrder)
  (st : KnowledgeStore) (context : KnowledgeAccessContext) (now : Time) (audit : Audit.AuditDatabase)

/-- The order of a list: the last updated row first, and the greater id among rows of one time. -/
def listedBefore {α : Type} (updatedAt : α → IsoDate) (id : α → String) (a b : α) : Prop :=
  updatedAt b < updatedAt a ∨ updatedAt a = updatedAt b ∧ collation.key (id b) < collation.key (id a)

/-- The order of the search: the better hit first, then the last updated row, the kinds in their order, and the greater
id. -/
def foundBefore (a b : KnowledgeSearchRow Score) : Prop :=
  b.score < a.score ∨ a.score = b.score ∧ (b.updatedAt < a.updatedAt ∨ a.updatedAt = b.updatedAt ∧
    (collation.key a.kind.text < collation.key b.kind.text ∨ a.kind = b.kind ∧ collation.key b.id < collation.key a.id))

/-- The lists in pages of `limit` rows, the search for `input` in `requestedKinds`, the audit log with the filters of
`query`, and the cursors of each of them. -/
structure CursorPagination (limit : Nat) (requestedKinds : List Wiki.KnowledgeKind) (input : String)
    (query : Audit.AuditLogQuery) :
    Prop where
  wiki : Partition (Answerable st context st.db.knowledge.pages wikiWhere "pages:read" .pages .page)
    (fun page => page ∈ st.db.knowledge.pages ∧ wikiWhere page = true ∧ MayRead order st context .pages .page page.id)
    (listedBefore collation (fun page => st.pageUpdatedAt page.id) Wiki.Page.id) (pageSource st)
    fun cursor => (listWiki collation order st context ⟨limit, cursor⟩).map fun out => (out.results, out.nextCursor)
  notes : Partition (Answerable st context st.db.knowledge.notes (noteWhere st context) "notes:read" .notes .note)
    (fun note => note ∈ st.db.knowledge.notes ∧ noteWhere st context note = true ∧
      MayRead order st context .notes .note note.id)
    (listedBefore collation (fun note => (st.noteColumns note.id).updatedAt) Wiki.Note.id) (noteSource st)
    fun cursor => (listNotes collation order st context ⟨limit, cursor⟩).map fun out => (out.results, out.nextCursor)
  standards : Partition
    (Answerable st context st.db.knowledge.standards (standardWhere st now) "standards:read" .standards .standard)
    (fun standard => standard ∈ st.db.knowledge.standards ∧ standardWhere st now standard = true ∧
      MayRead order st context .standards .standard standard.id)
    (listedBefore collation (fun standard => (st.standardColumns standard.id).updatedAt) Wiki.Standard.id)
      (standardSource st)
    fun cursor => (listStandards collation order st context now ⟨limit, cursor⟩).map fun out =>
      (out.results, out.nextCursor)
  search : Partition (Searchable st context now requestedKinds)
    (Hit pg order st context now (allowedKinds context requestedKinds) (Js.trim input)) (foundBefore collation)
    (fun row => (searchResult row, searchSource row))
    fun cursor =>
      (searchKinds collation pg numbers hashing order st context now requestedKinds ⟨input, limit, cursor⟩).map fun out =>
      (out.results.zip out.sources, out.nextCursor)
  log : Partition (Audit.BoundsRead dates query) (Audit.Shown dates audit query)
    (listedBefore collation Audit.AuditLog.createdAt Audit.AuditLog.id)
    (Audit.toApi audit)
    fun cursor =>
      (Audit.findAll dates collation order audit { query with cursor := cursor, perPage := limit }).map fun out =>
      (out.data, out.nextCursor)
  listCursor : ∀ (source : McpKnowledgeSource) (date : IsoDate), isUuid source.id = true →
    source.updatedAt = date.toISOString →
    decodeCursor (some (encodeCursor source)) = .ok (some ⟨source.id, date⟩)
  searchCursor : ∀ (row : KnowledgeSearchRow Score) (text : String), isUuid row.id = true → pg.zero ≤ row.score →
    decodeSearchCursor pg numbers hashing (some (encodeSearchCursor numbers hashing row text)) text =
      .ok (some (payloadOf hashing text row))
  logCursor : ∀ (createdAt : IsoDate) (id : String),
    Audit.decodeCursor dates (Audit.encodeCursor createdAt id) = some (dates.instant createdAt, id)

end Statement

/-- **The lists in pages are partitions** of the visible rows, and cursors are read back. -/
theorem cursor_pagination {Key Score Instant : Type} [LinearOrder Key] [LinearOrder Score] [LinearOrder Instant]
    (collation : Collation Key) (pg : Postgres Score) (numbers : Numbers Score) (hashing : Hashing)
    (dates : Audit.Dates Instant)
    (order : RowOrder) (st : KnowledgeStore) (context : KnowledgeAccessContext) (now : Time) (audit : Audit.AuditDatabase)
    (limit : Nat) (requestedKinds : List Wiki.KnowledgeKind) (input : String) (query : Audit.AuditLogQuery)
    (hlimit : 0 < limit) :
    CursorPagination collation pg numbers hashing dates order st context now audit limit requestedKinds input query where
  wiki := listRows_partition hlimit (by decide) (fun _ hpage => hasRow_page hpage) (fun _ => fits_page)
    fun page hpage => ⟨st.pageIds page hpage, rfl, rfl⟩
  notes := listRows_partition hlimit (by decide) (fun _ hnote => hasRow_note hnote) (fun _ => fits_note)
    fun note hnote => ⟨st.noteIds note hnote, rfl, rfl⟩
  standards :=
    listRows_partition hlimit (by decide) (fun _ hstandard => hasRow_standard hstandard) (fun _ => fits_standard)
    fun standard hstandard => ⟨st.standardIds standard hstandard, rfl, rfl⟩
  search := searchKinds_partition hlimit
  log := by
    let paged : Audit.AuditLogQuery := { query with perPage := limit }
    have hpaged : Partition (Audit.BoundsRead dates paged) (Audit.Shown dates audit paged)
      (listedBefore collation Audit.AuditLog.createdAt Audit.AuditLog.id)
        (Audit.toApi audit) fun cursor =>
          (Audit.findAll dates collation order audit { paged with cursor := cursor }).map fun out =>
            (out.data, out.nextCursor) :=
      Audit.findAll_partition (show 0 < paged.perPage from hlimit)
    exact hpaged
  listCursor _ _ hid hdate := decodeCursor_encodeCursor hid hdate
  searchCursor _ _ hid hscore := decodeSearchCursor_encodeSearchCursor hid hscore
  logCursor := Audit.decodeCursor_encodeCursor

/-! ## Two pages that were updated at one time -/

namespace PagesDemo

def firstPage : Wiki.Page :=
  ⟨"11111111-1111-4111-8111-111111111111", "Backup", "backup", .page, "how to restore", none, .published, false,
    true, 1, 0, none,
    none, "space", "user", none, none⟩

def secondPage : Wiki.Page :=
  ⟨"22222222-2222-4222-8222-222222222222", "Restore", "restore", .page, "from a backup", none, .published, false,
    true, 1, 0, none,
    none, "space", "user", none, none⟩

def noon : IsoDate := ⟨2025, 3, 1, 12, 0, 0, 0, by decide, by decide⟩

/-- A viewer may read the pages. -/
def db : Database where
  directory :=
    { roles := .single ⟨"viewer", "viewer"⟩
      users := .single ⟨"user", "user@wiki", "user", "User", "", "viewer", true, false, true⟩
      acls := .single ⟨"viewer", "pages", "read", true⟩
      permissions := .empty
      providers := .empty
      roleMappings := .empty
      externalIdentities := .empty
      externalRoleGrants := .empty }
  knowledge :=
    { spaces := .single ⟨"space", "Handbook", .opened, [.wiki]⟩
      categories := .empty
      pages := ⟨[firstPage, secondPage], by decide⟩
      notes := .empty
      noteShares := .empty
      standards := .empty }
  groupMemberships := .empty
  resourceAclEntries := .empty
  resourceAclBoundaries := .empty

theorem references : References db.knowledge where
  categorySpace := by simp [db, Table.mem_def]
  pageSpace := by simp [db, Table.mem_def, firstPage, secondPage, Table.find]
  pageCategory := by simp [db, Table.mem_def, firstPage, secondPage]
  noteSpace := by simp [db, Table.mem_def]
  noteCategory := by simp [db, Table.mem_def]
  standardSpace := by simp [db, Table.mem_def]
  standardCategory := by simp [db, Table.mem_def]

theorem pageIds : ∀ page ∈ db.knowledge.pages, isUuid page.id = true := by
  intro page hpage
  rcases List.mem_pair.mp hpage with rfl | rfl <;> decide +kernel

theorem noteIds : ∀ note ∈ db.knowledge.notes, isUuid note.id = true := by
  simp [db, Table.mem_def]

theorem standardIds : ∀ standard ∈ db.knowledge.standards, isUuid standard.id = true := by
  simp [db, Table.mem_def]

def store : KnowledgeStore where
  db := db
  pageUpdatedAt _ := noon
  noteColumns _ := ⟨.captured, "", false, none, noon⟩
  standardColumns _ := ⟨"", "", "", .draft, 1, false, none, none, noon⟩
  references := references
  pageIds := pageIds
  noteIds := noteIds
  standardIds := standardIds

def context : KnowledgeAccessContext := ⟨"user", ["pages:read"], none⟩

/-- Texts are compared by their characters. -/
def collation : Collation String := ⟨id, Function.injective_id⟩

/-- One point for a text that has the query in it, and the addition of its kind in hundredths. -/
def postgres : Postgres Nat where
  textScore query text := if (text.toList.map Char.toLower).tails.any query.toList.isPrefixOf then some 6 else none
  boosted priority score := score + (if priority = 1 then 10 else if priority = 2 then 5 else 0)
  zero := 0
  squash text := " ".intercalate (Js.words text)

def numbers : Numbers Nat := ⟨Json.Number.ofNat, Json.Number.toNat?, Json.Number.toNat?_ofNat⟩

/-- The hash of the query of the search below. -/
def hashing : Hashing where
  sha256 _ := "8f41a5398444bce98ba0188e34067fe4641bc0901ff041fbf7841ed319fbd67e"
  toLocaleLowerCase := id
  length_sha256 _ := by decide

def dates : Audit.Dates IsoDate := ⟨id, IsoDate.ofText, fun _ _ => Iff.rfl, IsoDate.ofText_toISOString⟩

def log : Audit.AuditDatabase where
  auditLogs := ⟨[⟨"1", some "user", "auth.login", "auth", none, none, none, noon⟩,
    ⟨"2", some "user", "page.create", "page", none, none, none, noon⟩], by decide⟩
  users := db.directory.users

end PagesDemo

/-- Two pages, hits and entries of one time, read one by one: the first call names a position for the second one. -/
theorem pages_of_one_time :
    CursorPagination PagesDemo.collation PagesDemo.postgres PagesDemo.numbers PagesDemo.hashing PagesDemo.dates .stored
      PagesDemo.store
        PagesDemo.context 5 PagesDemo.log 1 [.wiki, .note] "backup" ⟨none, none, none, none, none, none, 1⟩ ∧
      (listWiki PagesDemo.collation .stored PagesDemo.store PagesDemo.context ⟨1, none⟩).toOption.map (fun out =>
        (out.results.map McpKnowledgeSource.id, out.nextCursor.isSome)) = some ([PagesDemo.secondPage.id], true) :=
  ⟨cursor_pagination _ _ _ _ _ _ _ _ _ _ _ _ _ _ (by decide), by decide +kernel⟩

end AdWiki.Knowledge.Lists
