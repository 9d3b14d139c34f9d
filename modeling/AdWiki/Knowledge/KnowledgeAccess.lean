import AdWiki.Common.Cursor
import AdWiki.Common.IsoDate
import AdWiki.Knowledge.TagSuggestions

/-!
# Lists for AI clients

`KnowledgeAccessService.listWiki`, `listNotes` and `listStandards` list what an actor may read, the last updated first and
in pages. A cursor is the time and the id of the last row of a page, as JSON in Base64.

* `decodeCursor_encodeCursor`: a cursor is read as the position that it was made of.
* `aclWhere_spec`: the rows that a list is about; `aclWhere_isOk`: when there is an answer about them.
* `listRows_partition`: page after page, every row that the actor may read is listed once, in the order of the list.
-/

namespace AdWiki.Knowledge.Lists

open Access Cursor Fallible Keyset TagSuggestions

/-- A note apart from what the access rules read. -/
structure NoteColumns where
  status : NoteStatus
  content : String
  mcpVisible : Bool
  deletedAt : Option Time
  updatedAt : IsoDate
  deriving DecidableEq, Repr

/-- A standard apart from what the access rules read. -/
structure StandardColumns where
  slug : String
  description : String
  justification : String
  status : Standards.StandardStatus
  version : Nat
  mcpVisible : Bool
  validFrom : Option Time
  validUntil : Option Time
  updatedAt : IsoDate
  deriving DecidableEq, Repr

/-- The tables; the further columns of a row are found by its id. The ids are made by the data store. -/
structure KnowledgeStore where
  db : Database
  pageUpdatedAt : String → IsoDate
  noteColumns : String → NoteColumns
  standardColumns : String → StandardColumns
  references : References db.knowledge
  pageIds : ∀ page ∈ db.knowledge.pages, isUuid page.id = true
  noteIds : ∀ note ∈ db.knowledge.notes, isUuid note.id = true
  standardIds : ∀ standard ∈ db.knowledge.standards, isUuid standard.id = true

structure McpKnowledgeSource where
  id : String
  type : Wiki.KnowledgeKind
  title : String
  status : String
  knowledgePriority : Nat
  version : Option Nat
  updatedAt : String
  uri : String
  deriving DecidableEq, Repr

structure McpKnowledgeListInput where
  limit : Nat
  cursor : Option String
  deriving DecidableEq, Repr

structure McpKnowledgeListOutput where
  results : List McpKnowledgeSource
  sources : List McpKnowledgeSource
  nextCursor : Option String
  deriving DecidableEq, Repr

structure CursorPayload where
  id : String
  updatedAt : IsoDate
  deriving DecidableEq, Repr

/-! ## Cursors -/

/-- `CursorSchema.parse` -/
def cursorSchema (j : Json) : Option CursorPayload := do
  let id ← (textMember "id" j).filter isUuid
  let updatedAt ← (textMember "updatedAt" j).bind IsoDate.ofText
  some ⟨id, updatedAt⟩

def encodeCursor (source : McpKnowledgeSource) : String :=
  toBase64Url (.object [("id", .string source.id), ("updatedAt", .string source.updatedAt)])

def invalidCursor : HttpError := .badRequest "Der Pagination-Cursor ist ungültig."

def decodeCursor (raw : Option String) : Except HttpError (Option CursorPayload) :=
  match raw.filter (· ≠ "") with
  | none => .ok none
  | some raw => (ofOption ((ofBase64Url raw).bind cursorSchema) invalidCursor).map some

/-! ## Lists -/

section Service

variable {Key : Type} [LinearOrder Key] (collation : Collation Key) (order : RowOrder) (st : KnowledgeStore)
  (context : KnowledgeAccessContext) (now : Time)

def resolveActor : Except HttpError AuthenticatedUser :=
  match context.actor with
  | some actor => .ok actor
  | none =>
    match st.db.directory.findUser context.userId with
    | none => .error (.notFound "Wissensinhalt wurde nicht gefunden.")
    | some (user, role) =>
      if user.isActive then .ok (Directory.localActor user role user.roleId)
      else .error (.notFound "Wissensinhalt wurde nicht gefunden.")

def wikiWhere (page : Wiki.Page) : Bool :=
  page.type == .page && page.status == .published && page.mcpVisible && page.deletedAt.isNone

def noteWhere (note : Wiki.Note) : Bool :=
  let columns := st.noteColumns note.id
  columns.status != .archived && columns.mcpVisible && columns.deletedAt.isNone &&
    (note.spaceId.isNone && (note.ownerId == context.userId ||
      st.db.knowledge.noteShares.rows.any fun share => share.noteId == note.id && share.userId == context.userId) ||
      note.spaceId.isSome)

def standardWhere (standard : Wiki.Standard) : Bool :=
  let columns := st.standardColumns standard.id
  columns.status == .active && columns.mcpVisible && columns.validFrom.all (· ≤ now) && columns.validUntil.all (now ≤ ·)

/-- The check of the scope, and the ids of the readable rows: what the three functions `wikiAclWhere`, `noteAclWhere` and
`standardAclWhere` do for a kind. -/
def aclWhere {α : Type} {key : α → String} (table : Table key) (isVisible : α → Bool) (scope : String)
    (resource : Resource) (targetType : TargetType) : Except HttpError (List String) := do
  throwIf (¬context.scopes.contains scope) (.forbidden "Für diesen Wissenstyp fehlt die Leseberechtigung.")
  let candidates := table.findMany order isVisible
  let actor ← resolveActor st context
  st.db.allowedTargetIds order actor ⟨resource, .read, targetType, candidates.map key⟩

def wikiAclWhere : Except HttpError (List String) :=
  aclWhere order st context st.db.knowledge.pages wikiWhere "pages:read" .pages .page

def noteAclWhere : Except HttpError (List String) :=
  aclWhere order st context st.db.knowledge.notes (noteWhere st context) "notes:read" .notes .note

def standardAclWhere : Except HttpError (List String) :=
  aclWhere order st context st.db.knowledge.standards (standardWhere st now) "standards:read" .standards .standard

/-- The condition that a cursor adds. -/
def withCursor (cursor : Option CursorPayload) (updatedAt : IsoDate) (id : String) : Bool :=
  isBehind collation (cursor.map fun cursor => (cursor.updatedAt, cursor.id)) updatedAt id

def listOutput (allSources : List McpKnowledgeSource) (limit : Nat) : McpKnowledgeListOutput :=
  let hasMore := decide (limit < allSources.length)
  let sources := if hasMore then allSources.take limit else allSources
  ⟨sources, sources, if hasMore then sources.getLast?.map encodeCursor else none⟩

/-- The list of a kind, whose readable rows are `visibleIds`. -/
def listRows {α : Type} {key : α → String} (table : Table key) (isVisible : α → Bool) (updatedAt : α → IsoDate)
    (source : α → McpKnowledgeSource) (visibleIds : Except HttpError (List String)) (input : McpKnowledgeListInput) :
    Except HttpError McpKnowledgeListOutput := do
  let cursor ← decodeCursor input.cursor
  let allowedIds ← visibleIds
  let rows := (table.findMany order fun row =>
    isVisible row && allowedIds.contains (key row) && withCursor collation cursor (updatedAt row) (key row)).insertionSort
      (newestFirst collation updatedAt key)
  pure (listOutput ((rows.take (input.limit + 1)).map source) input.limit)

/-- `content.replace(/\s+/g, " ").trim()`, and its first code units; `none` for an empty text. -/
def excerpt (content : String) (maxLength : Nat) : Option String :=
  let normalized := " ".intercalate (Js.words content)
  if normalized = "" then none else some (Js.slice maxLength normalized)

def pageSource (page : Wiki.Page) : McpKnowledgeSource where
  id := page.id
  type := .wiki
  title := page.title
  status := match page.status with
    | .draft => "draft"
    | .published => "published"
    | .archived => "archived"
  knowledgePriority := 2
  version := some page.version
  updatedAt := (st.pageUpdatedAt page.id).toISOString
  uri := "ad-wiki://wiki/" ++ page.slug

def noteSource (note : Wiki.Note) : McpKnowledgeSource where
  id := note.id
  type := .note
  title :=
    Js.orElse (note.title.elim "" Js.trim) (Js.orElse ((excerpt (st.noteColumns note.id).content 80).getD "") "Notiz")
  status := match (st.noteColumns note.id).status with
    | .captured => "captured"
    | .promoted => "promoted"
    | .archived => "archived"
  knowledgePriority := 3
  version := none
  updatedAt := (st.noteColumns note.id).updatedAt.toISOString
  uri := "ad-wiki://notes/" ++ note.id

def standardSource (standard : Wiki.Standard) : McpKnowledgeSource where
  id := standard.id
  type := .standard
  title := standard.title
  status := match (st.standardColumns standard.id).status with
    | .draft => "draft"
    | .review => "review"
    | .active => "active"
    | .deprecated => "deprecated"
  knowledgePriority := 1
  version := some (st.standardColumns standard.id).version
  updatedAt := (st.standardColumns standard.id).updatedAt.toISOString
  uri := "ad-wiki://standards/" ++ standard.id

def listWiki (input : McpKnowledgeListInput) : Except HttpError McpKnowledgeListOutput :=
  listRows collation order st.db.knowledge.pages wikiWhere (fun page => st.pageUpdatedAt page.id) (pageSource st)
    (wikiAclWhere order st context) input

def listNotes (input : McpKnowledgeListInput) : Except HttpError McpKnowledgeListOutput :=
  listRows collation order st.db.knowledge.notes (noteWhere st context) (fun note => (st.noteColumns note.id).updatedAt)
    (noteSource st) (noteAclWhere order st context) input

def listStandards (input : McpKnowledgeListInput) : Except HttpError McpKnowledgeListOutput :=
  listRows collation order st.db.knowledge.standards (standardWhere st now)
    (fun standard => (st.standardColumns standard.id).updatedAt)
    (standardSource st) (standardAclWhere order st context now) input

end Service

variable {Key : Type} [LinearOrder Key] {collation : Collation Key} {order : RowOrder} {st : KnowledgeStore}
  {context : KnowledgeAccessContext} {now : Time}

/-! ## Cursors are read back -/

/-- **A cursor is read as the position that it was made of.** -/
theorem decodeCursor_encodeCursor {source : McpKnowledgeSource} {date : IsoDate} (hid : isUuid source.id = true)
    (hdate : source.updatedAt = date.toISOString) :
    decodeCursor (some (encodeCursor source)) = .ok (some ⟨source.id, date⟩) := by
  have hread : (ofBase64Url (encodeCursor source)).bind cursorSchema = some ⟨source.id, date⟩ := by
    rw [encodeCursor, ofBase64Url_toBase64Url, Option.bind_some]
    have hidText : textMember "id" (.object [("id", .string source.id), ("updatedAt", .string source.updatedAt)]) =
      some source.id := rfl
    have hdateText :
      textMember "updatedAt" (.object [("id", .string source.id), ("updatedAt", .string source.updatedAt)]) =
        some source.updatedAt := rfl
    simp only [cursorSchema, hidText, hdateText]
    simp [Option.filter_some, hid, hdate, IsoDate.ofText_toISOString]
  have hne : encodeCursor source ≠ "" := toBase64Url_ne_empty _
  simp only [decodeCursor, Option.filter_some, hne, ne_eq, not_false_eq_true, decide_true, if_true, hread]
  rfl

/-! ## The rows of a list -/

/-- The actor of the context may read the entry. -/
def MayRead (order : RowOrder) (st : KnowledgeStore) (context : KnowledgeAccessContext) (resource : Resource)
    (targetType : TargetType) (id : String) : Prop :=
  ∃ actor, resolveActor st context = .ok actor ∧ Allowed order st.db actor ⟨resource, .read, targetType, id⟩

/-- Somebody asks: the actor of the context, or its user, who is active. -/
def HasActor (st : KnowledgeStore) (context : KnowledgeAccessContext) : Prop :=
  context.actor.isSome = true ∨
    ∃ user role, st.db.directory.findUser context.userId = some (user, role) ∧ user.isActive = true

theorem resolveActor_isOk : (∃ actor, resolveActor st context = .ok actor) ↔ HasActor st context := by
  unfold resolveActor HasActor
  cases context.actor with
  | some actor => exact iff_of_true ⟨actor, rfl⟩ (Or.inl rfl)
  | none =>
    cases hu : st.db.directory.findUser context.userId with
    | none => simp
    | some pair =>
      obtain ⟨user, role⟩ := pair
      cases hactive : user.isActive <;> simp [hactive]

/-- A list of a kind can be answered: the context has the scope and an actor, and if the actor has the permission, the
hierarchy of every visible row is well formed. -/
structure Answerable {α : Type} {key : α → String} (st : KnowledgeStore) (context : KnowledgeAccessContext)
    (table : Table key)
    (isVisible : α → Bool) (scope : String) (resource : Resource) (targetType : TargetType) : Prop where
  scope : scope ∈ context.scopes
  actor : HasActor st context
  hierarchies : ∀ actor, resolveActor st context = .ok actor → st.db.directory.isAllowed actor ⟨resource, .read⟩ = true →
    ∀ row ∈ table, isVisible row = true → WellFormed st.db.knowledge targetType (key row)

section Rows

variable {α : Type} {key : α → String} {table : Table key} {isVisible : α → Bool} {updatedAt : α → IsoDate}
  {source : α → McpKnowledgeSource} {scope : String} {resource : Resource} {targetType : TargetType} {ids : List String}

/-- **The ids are those of the visible rows that the actor may read.** -/
theorem aclWhere_spec (hsupported : isPermissionSupported ⟨resource, .read⟩ = true)
    (hrows : ∀ row ∈ table, HasRow st.db.knowledge targetType (key row))
    (h : aclWhere order st context table isVisible scope resource targetType = .ok ids) :
    ∀ row ∈ table, isVisible row = true → (key row ∈ ids ↔ MayRead order st context resource targetType (key row)) := by
  intro row hrow hvisible
  obtain ⟨-, h⟩ := throwIf_bind_eq_ok.mp h
  obtain ⟨actor, hactor, hallowed⟩ := bind_eq_ok.mp h
  have hcandidates : ∀ id ∈ (table.findMany order isVisible).map key, HasRow st.db.knowledge targetType id := by
    intro id hid
    obtain ⟨other, hother, rfl⟩ := List.mem_map.mp hid
    exact hrows other (Table.mem_findMany.mp hother).1
  have hiff : key row ∈ ids ↔ key row ∈ (table.findMany order isVisible).map key ∧
      Allowed order st.db actor ⟨resource, .read, targetType, key row⟩ :=
    mem_allowedTargetIds_iff order st.references (by exact hsupported) hcandidates hallowed
  rw [hiff, and_iff_right (List.mem_map_of_mem (Table.mem_findMany.mpr ⟨hrow, hvisible⟩))]
  constructor
  · exact fun hread => ⟨actor, hactor, hread⟩
  · rintro ⟨actor', hactor', hread⟩
    rw [hactor] at hactor'
    cases hactor'
    exact hread

/-- **There is an answer about the rows** exactly if the list can be answered. -/
theorem aclWhere_isOk (hsupported : isPermissionSupported ⟨resource, .read⟩ = true)
    (hrows : ∀ row ∈ table, HasRow st.db.knowledge targetType (key row))
    (hfits : ∀ id, Fits st.db.knowledge targetType id resource) :
    (∃ ids, aclWhere order st context table isVisible scope resource targetType = .ok ids) ↔
      Answerable st context table isVisible scope resource targetType := by
  have hcandidates : ∀ id ∈ (table.findMany order isVisible).map key, HasRow st.db.knowledge targetType id := by
    intro id hid
    obtain ⟨other, hother, rfl⟩ := List.mem_map.mp hid
    exact hrows other (Table.mem_findMany.mp hother).1
  have hanswer : ∀ actor, (∃ ids, st.db.allowedTargetIds order actor
      ⟨resource, .read, targetType, (table.findMany order isVisible).map key⟩ = .ok ids) ↔
        (st.db.directory.isAllowed actor ⟨resource, .read⟩ = true →
          ∀ id ∈ (table.findMany order isVisible).map key, WellFormed st.db.knowledge targetType id) := fun actor =>
    allowedTargetIds_isOk st.references (by exact hsupported) hcandidates fun id _ => hfits id
  constructor
  · rintro ⟨ids, h⟩
    obtain ⟨hscope, h⟩ := throwIf_bind_eq_ok.mp h
    obtain ⟨actor, hactor, hallowed⟩ := bind_eq_ok.mp h
    refine ⟨by simpa using hscope, resolveActor_isOk.mp ⟨actor, hactor⟩,
      fun actor' hactor' hgranted row hrow hvisible => ?_⟩
    rw [hactor] at hactor'
    cases hactor'
    exact (hanswer actor).mp ⟨ids, hallowed⟩ hgranted _ (List.mem_map_of_mem (Table.mem_findMany.mpr ⟨hrow, hvisible⟩))
  · rintro ⟨hscope, hactor, hformed⟩
    obtain ⟨actor, hactor⟩ := resolveActor_isOk.mpr hactor
    obtain ⟨ids, hids⟩ := (hanswer actor).mpr fun hgranted id hid => by
      obtain ⟨row, hrow, rfl⟩ := List.mem_map.mp hid
      obtain ⟨hmem, hvisible⟩ := Table.mem_findMany.mp hrow
      exact hformed actor hactor hgranted row hmem hvisible
    exact ⟨ids, throwIf_bind_eq_ok.mpr ⟨by simpa using hscope, bind_eq_ok.mpr ⟨actor, hactor, hids⟩⟩⟩

/-- What a call returns of the rows that are left. -/
theorem listOutput_page {rest : List α} {limit : Nat} :
    listOutput ((rest.take (limit + 1)).map source) limit =
      ⟨((page limit (encodeCursor ∘ source) rest).1).map source, ((page limit (encodeCursor ∘ source) rest).1).map source,
        (page limit (encodeCursor ∘ source) rest).2⟩ := by
  have hrows :
    (if limit < ((rest.take (limit + 1)).map source).length then ((rest.take (limit + 1)).map source).take limit
      else (rest.take (limit + 1)).map source) = (rest.take limit).map source := by
    rw [List.map_take, probe_eq, List.map_take]
  have hmore : (limit < ((rest.take (limit + 1)).map source).length) ↔ limit < rest.length := by
    rw [List.length_map, lt_length_probe]
  simp only [listOutput, page, decide_eq_true_eq, hrows]
  simp only [hmore, List.getLast?_map, Option.map_map]

/-- **A list in pages is a partition** of the rows that the actor may read. -/
theorem listRows_partition {limit : Nat} (hlimit : 0 < limit)
    (hsupported : isPermissionSupported ⟨resource, .read⟩ = true)
    (hrows : ∀ row ∈ table, HasRow st.db.knowledge targetType (key row))
    (hfits : ∀ id, Fits st.db.knowledge targetType id resource)
    (hsource : ∀ row ∈ table, isUuid (key row) = true ∧ (source row).id = key row ∧
      (source row).updatedAt = (updatedAt row).toISOString) :
    Partition (Answerable st context table isVisible scope resource targetType)
      (fun row => row ∈ table ∧ isVisible row = true ∧ MayRead order st context resource targetType (key row))
      (fun a b => updatedAt b < updatedAt a ∨ updatedAt a = updatedAt b ∧
        collation.key (key b) < collation.key (key a)) source
      fun cursor => (listRows collation order table isVisible updatedAt source
        (aclWhere order st context table isVisible scope resource targetType) ⟨limit, cursor⟩).map fun out =>
          (out.results, out.nextCursor) := by
  have hisOk : (∃ ids, aclWhere order st context table isVisible scope resource targetType = .ok ids) ↔
      Answerable st context table isVisible scope resource targetType := aclWhere_isOk hsupported hrows hfits
  cases hids : aclWhere order st context table isVisible scope resource targetType with
  | error e =>
    refine .of_error (fun hanswerable => ?_) rfl
    obtain ⟨ids, h⟩ := hisOk.mpr hanswerable
    rw [hids] at h
    cases h
  | ok ids =>
    let visible : List α := table.findMany order fun row => isVisible row && ids.contains (key row)
    have hsorted : IsSorted (fun row => place collation (updatedAt row) (key row)) visible _ :=
      isSorted_insertionSort newestFirst_iff (nodup_place Table.nodup_findMany)
    have hmem : ∀ row, row ∈ visible ↔
        row ∈ table ∧ isVisible row = true ∧ MayRead order st context resource targetType (key row) := by
      intro row
      rw [Table.mem_findMany, Bool.and_eq_true, List.contains_iff_mem]
      refine and_congr_right fun hrow => and_congr_right fun hvisible => ?_
      exact aclWhere_spec hsupported hrows hids row hrow hvisible
    have hlt : (fun a b : α => place collation (updatedAt a) (key a) < place collation (updatedAt b) (key b)) =
        fun a b =>
          updatedAt b < updatedAt a ∨ updatedAt a = updatedAt b ∧ collation.key (key b) < collation.key (key a) :=
      funext fun a => funext fun b => propext place_lt
    rw [← hlt]
    refine partition_of_pages (encodeCursor ∘ source) (hisOk.mp ⟨ids, hids⟩) hsorted hmem hlimit
      fun before rest hsplit => ?_
    -- the cursor is the place of the last row that was read
    have hcursor : decodeCursor (before.getLast?.map (encodeCursor ∘ source)) =
        .ok (before.getLast?.map fun row => ⟨key row, updatedAt row⟩) := by
      cases hlast : before.getLast? with
      | none => rfl
      | some row =>
        have hrow : row ∈ visible := hsplit.perm.mem_iff.mp (List.mem_append_left _ (List.mem_of_getLast? hlast))
        obtain ⟨huuid, hid, hdate⟩ := hsource row (hmem row |>.mp hrow).1
        have hdecode := @decodeCursor_encodeCursor (source row) _ (by rw [hid]; exact huuid) hdate
        rw [hid] at hdecode
        exact hdecode
    have hquery : (table.findMany order fun row => isVisible row && ids.contains (key row) &&
        withCursor collation (before.getLast?.map fun row => ⟨key row, updatedAt row⟩) (updatedAt row)
          (key row)).insertionSort
          (newestFirst collation updatedAt key) = rest := by
      simp only [withCursor, Option.map_map]
      exact findMany_behind (order.perm _) hsplit
    show (listRows collation order table isVisible updatedAt source (.ok ids) _).map _ = _
    rw [listRows, hcursor]
    show Except.ok _ = _
    rw [hquery, listOutput_page]

end Rows

end AdWiki.Knowledge.Lists
