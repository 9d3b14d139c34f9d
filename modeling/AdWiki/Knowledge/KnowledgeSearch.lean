import AdWiki.Common.Sql
import AdWiki.Knowledge.KnowledgeAccess

/-!
# Search for AI clients

`KnowledgeAccessService.searchKinds` searches the readable entries of several kinds in one query, the best hits first and
in pages. What PostgreSQL computes from texts (`Postgres`), the texts of numbers (`Numbers`) and the hash of a query
(`Hashing`) are parameters.

* `decodeSearchCursor_encodeSearchCursor`: a cursor is read as the position that it was made of, for the same query.
* `searchKinds_partition`: page after page, every hit that the actor may read is returned once, in the order of the
  search.
-/

namespace AdWiki.Knowledge.Lists

open Access Cursor Fallible Keyset TagSuggestions

/-- What the query asks PostgreSQL of texts: the rank of a text for a query, if it matches; the sum of a rank and what its
kind adds to it; and `regexp_replace(text, '\s+', ' ', 'g')`. -/
structure Postgres (Score : Type) where
  textScore : String → String → Option Score
  boosted : Nat → Score → Score
  zero : Score
  squash : String → String

/-- How scores are written in JSON; a number that is no finite one is `none`. -/
structure Numbers (Score : Type) where
  stringify : Score → Json.Number
  parse : Json.Number → Option Score
  parse_stringify : ∀ score, parse (stringify score) = some score

/-- `createHash("sha256")` in hexadecimal digits, and `toLocaleLowerCase("de-DE")`. -/
structure Hashing where
  sha256 : String → String
  toLocaleLowerCase : String → String
  length_sha256 : ∀ text, Js.length (sha256 text) = 64

structure KnowledgeSearchRow (Score : Type) where
  id : String
  kind : Wiki.KnowledgeKind
  title : String
  status : String
  version : Option Nat
  updatedAt : IsoDate
  resourceKey : String
  knowledgePriority : Nat
  excerpt : Option String
  score : Score

structure SearchCursorPayload (Score : Type) where
  id : String
  updatedAt : IsoDate
  score : Score
  kind : Wiki.KnowledgeKind
  queryHash : String

structure McpWikiSearchInput where
  query : String
  limit : Nat
  cursor : Option String
  deriving DecidableEq, Repr

structure SearchResult (Score : Type) where
  sourceId : String
  excerpt : Option String
  score : Score

structure McpKnowledgeSearchOutput (Score : Type) where
  results : List (SearchResult Score)
  sources : List McpKnowledgeSource
  warnings : List String
  nextCursor : Option String

/-! ## Cursors -/

section Cursor

variable {Score : Type} [LinearOrder Score] (pg : Postgres Score) (numbers : Numbers Score) (hashing : Hashing)

def queryHash (query : String) : String := hashing.sha256 (hashing.toLocaleLowerCase (Js.trim query))

def encodeSearchCursor (row : KnowledgeSearchRow Score) (query : String) : String :=
  toBase64Url (.object
    [("id", .string row.id),
      ("updatedAt", .string row.updatedAt.toISOString),
      ("score", .number (numbers.stringify row.score)),
      ("kind", .string row.kind.text),
      ("queryHash", .string (queryHash hashing query))])

/-- `z.enum(["note", "wiki", "standard"])` -/
def kindOfText (text : String) : Option Wiki.KnowledgeKind :=
  [Wiki.KnowledgeKind.note, .wiki, .standard].find? fun kind => kind.text == text

/-- A member that is a finite number. -/
def numberMember (name : String) (j : Json) : Option Score :=
  match j.get? name with
  | some (.number value) => numbers.parse value
  | _ => none

/-- `SearchCursorSchema.parse` -/
def searchCursorSchema (j : Json) : Option (SearchCursorPayload Score) := do
  let id ← (textMember "id" j).filter isUuid
  let updatedAt ← (textMember "updatedAt" j).bind IsoDate.ofText
  let score ← (numberMember numbers "score" j).filter fun score => pg.zero ≤ score
  let kind ← (textMember "kind" j).bind kindOfText
  let queryHash ← (textMember "queryHash" j).filter fun hash => Js.length hash = 64
  some ⟨id, updatedAt, score, kind, queryHash⟩

def invalidSearchCursor : HttpError := .badRequest "Der Such-Cursor ist ungültig."

def decodeSearchCursor (raw : Option String) (query : String) : Except HttpError (Option (SearchCursorPayload Score)) :=
  match raw.filter (· ≠ "") with
  | none => .ok none
  | some raw => do
    let parsed ← ofOption ((ofBase64Url raw).bind (searchCursorSchema pg numbers)) invalidSearchCursor
    throwIf (parsed.queryHash ≠ queryHash hashing query) invalidSearchCursor
    pure (some parsed)

end Cursor

/-! ## The search -/

section Service

variable {Key Score : Type} [LinearOrder Key] [LinearOrder Score] (collation : Collation Key) (pg : Postgres Score)
  (numbers : Numbers Score) (hashing : Hashing) (order : RowOrder) (st : KnowledgeStore)
    (context : KnowledgeAccessContext) (now : Time)

def pageText (page : Wiki.Page) : String := page.title ++ " " ++ page.content

def noteText (note : Wiki.Note) : String := note.title.getD "" ++ " " ++ (st.noteColumns note.id).content

def standardText (standard : Wiki.Standard) : String :=
  standard.title ++ " " ++ (st.standardColumns standard.id).description ++ " " ++
    (st.standardColumns standard.id).justification

def pageRow (page : Wiki.Page) (textScore : Score) : KnowledgeSearchRow Score where
  id := page.id
  kind := .wiki
  title := page.title
  status := match page.status with
    | .draft => "DRAFT"
    | .published => "PUBLISHED"
    | .archived => "ARCHIVED"
  version := some page.version
  updatedAt := st.pageUpdatedAt page.id
  resourceKey := page.slug
  knowledgePriority := 2
  excerpt := (Sql.nullif page.excerpt).or (some (Sql.left 500 (pg.squash page.content)))
  score := pg.boosted 2 textScore

def noteRow (note : Wiki.Note) (textScore : Score) : KnowledgeSearchRow Score where
  id := note.id
  kind := .note
  title := (Sql.nullif (note.title.map Sql.btrim)).getD (Sql.left 80 (pg.squash (st.noteColumns note.id).content))
  status := match (st.noteColumns note.id).status with
    | .captured => "CAPTURED"
    | .promoted => "PROMOTED"
    | .archived => "ARCHIVED"
  version := none
  updatedAt := (st.noteColumns note.id).updatedAt
  resourceKey := note.id
  knowledgePriority := 3
  excerpt := some (Sql.left 500 (pg.squash (st.noteColumns note.id).content))
  score := pg.boosted 3 textScore

def standardRow (standard : Wiki.Standard) (textScore : Score) : KnowledgeSearchRow Score where
  id := standard.id
  kind := .standard
  title := standard.title
  status := match (st.standardColumns standard.id).status with
    | .draft => "DRAFT"
    | .review => "REVIEW"
    | .active => "ACTIVE"
    | .deprecated => "DEPRECATED"
  version := some (st.standardColumns standard.id).version
  updatedAt := (st.standardColumns standard.id).updatedAt
  resourceKey := standard.id
  knowledgePriority := 1
  excerpt := some (Sql.left 500 (pg.squash (st.standardColumns standard.id).description))
  score := pg.boosted 1 textScore

/-- The conditions of the query on the notes whose ids are visible. -/
def noteMatches (note : Wiki.Note) : Bool :=
  let columns := st.noteColumns note.id
  columns.status != .archived && columns.mcpVisible && columns.deletedAt.isNone

/-- The ids of the rows of a kind that is searched, which are visible. -/
def visibleIds {α : Type} {key : α → String} (table : Table key) (isVisible : α → Bool) (wanted : Bool)
    (aclWhere : Except HttpError (List String)) : Except HttpError (List String) :=
  if wanted then do
    let allowedIds ← aclWhere
    pure ((table.findMany order fun row => isVisible row && allowedIds.contains (key row)).map key)
  else .ok []

/-- One part of the union. -/
def branch {α : Type} {key : α → String} (table : Table key) (isMatch : α → Bool) (ids : List String) (query : String)
    (text : α → String) (row : α → Score → KnowledgeSearchRow Score) : List (KnowledgeSearchRow Score) :=
  if ids.length > 0 then
    (table.findMany order fun a => isMatch a && ids.contains (key a)).filterMap fun a =>
      (pg.textScore query (text a)).map (row a)
  else []

/-- The condition that a cursor adds. -/
def withSearchCursor (cursor : Option (SearchCursorPayload Score)) (row : KnowledgeSearchRow Score) : Bool :=
  cursor.all fun cursor => decide (row.score < cursor.score) || decide (row.score = cursor.score) &&
    (decide (row.updatedAt < cursor.updatedAt) || decide (row.updatedAt = cursor.updatedAt) &&
      (decide (collation.key cursor.kind.text < collation.key row.kind.text) || decide (row.kind = cursor.kind) &&
        decide (collation.key row.id < collation.key cursor.id)))

/-- `ORDER BY score DESC, "updatedAt" DESC, kind ASC, id DESC` -/
def ranksFirst (a b : KnowledgeSearchRow Score) : Prop :=
  b.score < a.score ∨ a.score = b.score ∧ (b.updatedAt < a.updatedAt ∨ a.updatedAt = b.updatedAt ∧
    (collation.key a.kind.text < collation.key b.kind.text ∨ a.kind = b.kind ∧ collation.key b.id ≤ collation.key a.id))

instance : DecidableRel (@ranksFirst Key Score _ _ collation) := fun _ _ => inferInstanceAs (Decidable (_ ∨ _))

def searchSource (row : KnowledgeSearchRow Score) : McpKnowledgeSource where
  id := row.id
  type := row.kind
  title := row.title
  status := String.ofList (row.status.toList.map Char.toLower)
  knowledgePriority := row.knowledgePriority
  version := row.version
  updatedAt := row.updatedAt.toISOString
  uri := match row.kind with
    | .wiki => "ad-wiki://wiki/" ++ row.resourceKey
    | .note => "ad-wiki://notes/" ++ row.resourceKey
    | .standard => "ad-wiki://standards/" ++ row.resourceKey

def searchResult (row : KnowledgeSearchRow Score) : SearchResult Score := ⟨row.id, row.excerpt, row.score⟩

def uniqueKinds (requestedKinds : List Wiki.KnowledgeKind) : List Wiki.KnowledgeKind :=
  (Js.distinct requestedKinds).insertionSort fun a b => a.text ≤ b.text

def allowedKinds (requestedKinds : List Wiki.KnowledgeKind) : List Wiki.KnowledgeKind :=
  (uniqueKinds requestedKinds).filter fun kind => context.scopes.contains (kindScope kind)

def fingerprint (query : String) (kinds : List Wiki.KnowledgeKind) : String :=
  query ++ "\x00" ++ ",".intercalate (kinds.map Wiki.KnowledgeKind.text)

/-- The common table expression `ranked`. -/
def rankedRows (kinds : List Wiki.KnowledgeKind) (query : String) :
    Except HttpError (List (KnowledgeSearchRow Score)) := do
  let wikiIds ← visibleIds order st.db.knowledge.pages wikiWhere (kinds.contains .wiki) (wikiAclWhere order st context)
  let noteIds ← visibleIds order st.db.knowledge.notes (noteWhere st context) (kinds.contains .note)
    (noteAclWhere order st context)
  let standardIds ← visibleIds order st.db.knowledge.standards (standardWhere st now) (kinds.contains .standard)
    (standardAclWhere order st context now)
  pure (branch pg order st.db.knowledge.pages wikiWhere wikiIds query pageText (pageRow pg st) ++
    branch pg order st.db.knowledge.notes (noteMatches st) noteIds query (noteText st) (noteRow pg st) ++
    branch pg order st.db.knowledge.standards (standardWhere st now) standardIds query (standardText st)
      (standardRow pg st))

/-- The rows of the query behind the cursor, with its limit. -/
def searchRows (cursor : Option (SearchCursorPayload Score)) (ranked : List (KnowledgeSearchRow Score)) (limit : Nat) :
    List (KnowledgeSearchRow Score) :=
  ((order.apply
    (ranked.filter fun row => decide (pg.zero < row.score) && withSearchCursor collation cursor row)).insertionSort
    (ranksFirst collation)).take limit

/-- What is returned for the rows. -/
def searchOutput (requestedKinds kinds : List Wiki.KnowledgeKind) (query : String) (limit : Nat)
    (rows : List (KnowledgeSearchRow Score)) : McpKnowledgeSearchOutput Score :=
  let hasMore := decide (limit < rows.length)
  let visibleRows := if hasMore then rows.take limit else rows
  { results := visibleRows.map searchResult
    sources := visibleRows.map searchSource
    warnings := ((uniqueKinds requestedKinds).filter fun kind => !kinds.contains kind).map fun kind =>
      "Wissenstyp " ++ kind.text ++ " wurde wegen fehlender Leseberechtigung übersprungen."
    nextCursor := if hasMore then
        visibleRows.getLast?.map fun row => encodeSearchCursor numbers hashing row (fingerprint query kinds)
      else none }

def searchKinds (requestedKinds : List Wiki.KnowledgeKind) (input : McpWikiSearchInput) :
    Except HttpError (McpKnowledgeSearchOutput Score) := do
  let kinds := allowedKinds context requestedKinds
  throwIf (kinds.length = 0) (.forbidden "Für die angeforderten Wissenstypen fehlt die Leseberechtigung.")
  let query := Js.trim input.query
  let cursor ← decodeSearchCursor pg numbers hashing input.cursor (fingerprint query kinds)
  let ranked ← rankedRows pg order st context now kinds query
  pure
    (searchOutput numbers hashing requestedKinds kinds query input.limit
      (searchRows collation pg order cursor ranked (input.limit + 1)))

end Service

variable {Key Score : Type} [LinearOrder Key] [LinearOrder Score] {collation : Collation Key} {pg : Postgres Score}
  {numbers : Numbers Score} {hashing : Hashing} {order : RowOrder} {st : KnowledgeStore}
    {context : KnowledgeAccessContext} {now : Time}
  {requestedKinds kinds : List Wiki.KnowledgeKind} {query : String}

/-! ## Cursors are read back -/

theorem kindOfText_text (kind : Wiki.KnowledgeKind) : kindOfText kind.text = some kind := by
  cases kind <;> decide

theorem text_injective : Function.Injective Wiki.KnowledgeKind.text := by
  intro a b h
  have hsome := kindOfText_text a
  rw [h, kindOfText_text] at hsome
  exact (Option.some.inj hsome).symm

/-- The position of a row. -/
def payloadOf (hashing : Hashing) (query : String) (row : KnowledgeSearchRow Score) : SearchCursorPayload Score :=
  ⟨row.id, row.updatedAt, row.score, row.kind, queryHash hashing query⟩

/-- **A cursor is read as the position that it was made of**, for the query that it was made for. -/
theorem decodeSearchCursor_encodeSearchCursor {row : KnowledgeSearchRow Score} (hid : isUuid row.id = true)
    (hscore : pg.zero ≤ row.score) :
    decodeSearchCursor pg numbers hashing (some (encodeSearchCursor numbers hashing row query)) query =
      .ok (some (payloadOf hashing query row)) := by
  have hread : (ofBase64Url (encodeSearchCursor numbers hashing row query)).bind (searchCursorSchema pg numbers) =
      some (payloadOf hashing query row) := by
    rw [encodeSearchCursor, ofBase64Url_toBase64Url, Option.bind_some]
    generalize hj : Json.object
      [("id", .string row.id), ("updatedAt", .string row.updatedAt.toISOString),
        ("score", .number (numbers.stringify row.score)),
        ("kind", .string row.kind.text), ("queryHash", .string (queryHash hashing query))] = j
    have hidText : textMember "id" j = some row.id := by subst hj; rfl
    have hdateText : textMember "updatedAt" j = some row.updatedAt.toISOString := by subst hj; rfl
    have hkindText : textMember "kind" j = some row.kind.text := by subst hj; rfl
    have hhashText : textMember "queryHash" j = some (queryHash hashing query) := by subst hj; rfl
    have hnumber : numberMember numbers "score" j = some row.score := by
      subst hj
      exact numbers.parse_stringify row.score
    have hlength : Js.length (queryHash hashing query) = 64 := hashing.length_sha256 _
    simp only [searchCursorSchema, hidText, hdateText, hkindText, hhashText, hnumber]
    simp [Option.filter_some, hid, hscore, IsoDate.ofText_toISOString, kindOfText_text, hlength, payloadOf]
  have hne : encodeSearchCursor numbers hashing row query ≠ "" := toBase64Url_ne_empty _
  simp only [decodeSearchCursor, Option.filter_some, hne, ne_eq, not_false_eq_true, decide_true, if_true, hread]
  exact throwIf_bind_eq_ok.mpr ⟨not_not.mpr rfl, rfl⟩

/-! ## The order of the search -/

/-- The place of a hit: the higher score comes first, then the later time, then the smaller kind, then the greater id. -/
def searchPlace (collation : Collation Key) (score : Score) (updatedAt : IsoDate) (kind : Wiki.KnowledgeKind)
    (id : String) :
    Scoreᵒᵈ ×ₗ IsoDateᵒᵈ ×ₗ Key ×ₗ Keyᵒᵈ :=
  toLex (OrderDual.toDual score,
    toLex (OrderDual.toDual updatedAt, toLex (collation.key kind.text, OrderDual.toDual (collation.key id))))

def rowPlace (collation : Collation Key) (row : KnowledgeSearchRow Score) : Scoreᵒᵈ ×ₗ IsoDateᵒᵈ ×ₗ Key ×ₗ Keyᵒᵈ :=
  searchPlace collation row.score row.updatedAt row.kind row.id

omit [LinearOrder Key] in
theorem key_text_inj {kind kind' : Wiki.KnowledgeKind} : collation.key kind.text = collation.key kind'.text ↔
    kind = kind' :=
  (collation.injective.comp text_injective).eq_iff

theorem searchPlace_lt {score score' : Score} {date date' : IsoDate} {kind kind' : Wiki.KnowledgeKind} {id id' : String} :
    searchPlace collation score date kind id < searchPlace collation score' date' kind' id' ↔
      score' < score ∨ score' = score ∧ (date' < date ∨ date' = date ∧
        (collation.key kind.text < collation.key kind'.text ∨ kind' = kind ∧ collation.key id' < collation.key id)) := by
  simp only [searchPlace, Prod.Lex.toLex_lt_toLex, OrderDual.toDual_lt_toDual, OrderDual.toDual_inj,
    key_text_inj, eq_comm]

theorem ranksFirst_iff (a b : KnowledgeSearchRow Score) :
    ranksFirst collation a b ↔ rowPlace collation a ≤ rowPlace collation b := by
  simp only [ranksFirst, rowPlace, searchPlace, Prod.Lex.toLex_le_toLex, OrderDual.toDual_le_toDual,
    OrderDual.toDual_lt_toDual, OrderDual.toDual_inj, key_text_inj]

theorem withSearchCursor_eq (cursor : Option (SearchCursorPayload Score)) (row : KnowledgeSearchRow Score) :
    withSearchCursor collation cursor row =
      (cursor.map fun cursor =>
        searchPlace collation cursor.score cursor.updatedAt cursor.kind cursor.id).all fun place =>
        decide (place < rowPlace collation row) := by
  cases cursor with
  | none => rfl
  | some cursor =>
    rw [Bool.eq_iff_iff]
    simp only [withSearchCursor, Option.all_some, Option.map_some, Bool.or_eq_true, Bool.and_eq_true,
      decide_eq_true_eq, rowPlace, searchPlace_lt]

/-! ## The hits -/

/-- A hit: an entry of one of the kinds that the actor may read and that matches the query. -/
inductive Hit (pg : Postgres Score) (order : RowOrder) (st : KnowledgeStore)
    (context : KnowledgeAccessContext) (now : Time)
    (kinds : List Wiki.KnowledgeKind) (query : String) : KnowledgeSearchRow Score → Prop
  | page {page textScore} : .wiki ∈ kinds → page ∈ st.db.knowledge.pages → wikiWhere page = true →
    MayRead order st context .pages .page page.id → pg.textScore query (pageText page) = some textScore →
    pg.zero < pg.boosted 2 textScore → Hit pg order st context now kinds query (pageRow pg st page textScore)
  | note {note textScore} : .note ∈ kinds → note ∈ st.db.knowledge.notes → noteWhere st context note = true →
    MayRead order st context .notes .note note.id → pg.textScore query (noteText st note) = some textScore →
    pg.zero < pg.boosted 3 textScore → Hit pg order st context now kinds query (noteRow pg st note textScore)
  | standard {standard textScore} : .standard ∈ kinds → standard ∈ st.db.knowledge.standards →
      standardWhere st now standard = true →
    MayRead order st context .standards .standard standard.id →
      pg.textScore query (standardText st standard) = some textScore →
    pg.zero < pg.boosted 1 textScore → Hit pg order st context now kinds query (standardRow pg st standard textScore)

/-- A search can be answered: the context has the scope of one of the kinds, and every kind that it has the scope of can
be listed. -/
structure Searchable (st : KnowledgeStore) (context : KnowledgeAccessContext) (now : Time)
    (requestedKinds : List Wiki.KnowledgeKind) : Prop where
  allowed : ∃ kind ∈ requestedKinds, kindScope kind ∈ context.scopes
  wiki : .wiki ∈ requestedKinds → "pages:read" ∈ context.scopes →
    Answerable st context st.db.knowledge.pages wikiWhere "pages:read" .pages .page
  notes : .note ∈ requestedKinds → "notes:read" ∈ context.scopes →
    Answerable st context st.db.knowledge.notes (noteWhere st context) "notes:read" .notes .note
  standards : .standard ∈ requestedKinds → "standards:read" ∈ context.scopes →
    Answerable st context st.db.knowledge.standards (standardWhere st now) "standards:read" .standards .standard

section Branch

variable {α : Type} {key : α → String} {table : Table key} {isVisible isMatch : α → Bool} {scope : String}
  {resource : Resource}
  {targetType : TargetType} {wanted : Bool} {ids : List String} {text : α → String}
    {row : α → Score → KnowledgeSearchRow Score}

/-- The ids of a kind. -/
theorem mem_visibleIds (hsupported : isPermissionSupported ⟨resource, .read⟩ = true)
    (hrows : ∀ a ∈ table, HasRow st.db.knowledge targetType (key a))
    (h : visibleIds order table isVisible wanted
      (aclWhere order st context table isVisible scope resource targetType) = .ok ids) :
    ∀ a ∈ table, key a ∈ ids ↔
      wanted = true ∧ isVisible a = true ∧ MayRead order st context resource targetType (key a) := by
  intro a ha
  cases wanted with
  | false =>
    cases h
    simp
  | true =>
    obtain ⟨allowedIds, hallowed, hids⟩ := bind_eq_ok.mp h
    rw [← pure_eq_ok.mp hids, List.mem_map, eq_self, true_and]
    constructor
    · rintro ⟨other, hother, hkey⟩
      obtain ⟨hmem, hcond⟩ := Table.mem_findMany.mp hother
      obtain rfl := Rows.eq_of_key table.unique hmem ha hkey
      rw [Bool.and_eq_true, List.contains_iff_mem] at hcond
      exact ⟨hcond.1, (aclWhere_spec hsupported hrows hallowed other ha hcond.1).mp hcond.2⟩
    · rintro ⟨hvisible, hread⟩
      refine ⟨a, Table.mem_findMany.mpr ⟨ha, ?_⟩, rfl⟩
      rw [Bool.and_eq_true, List.contains_iff_mem]
      exact ⟨hvisible, (aclWhere_spec hsupported hrows hallowed a ha hvisible).mpr hread⟩

theorem visibleIds_isOk {acl : Except HttpError (List String)} :
    (∃ ids, visibleIds order table isVisible wanted acl = .ok ids) ↔ (wanted = true → ∃ ids, acl = .ok ids) := by
  cases wanted with
  | false => exact iff_of_true ⟨[], rfl⟩ fun hno => absurd hno Bool.false_ne_true
  | true =>
    constructor
    · rintro ⟨ids, h⟩ -
      obtain ⟨allowedIds, hallowed, -⟩ := bind_eq_ok.mp h
      exact ⟨allowedIds, hallowed⟩
    · intro h
      obtain ⟨allowedIds, hallowed⟩ := h rfl
      exact ⟨_, bind_eq_ok.mpr ⟨allowedIds, hallowed, rfl⟩⟩

omit [LinearOrder Score] in
/-- The rows of one part of the union. -/
theorem mem_branch {r : KnowledgeSearchRow Score} : r ∈ branch pg order table isMatch ids query text row ↔
    ∃ a ∈ table, isMatch a = true ∧ key a ∈ ids ∧ ∃ textScore, pg.textScore query (text a) = some textScore ∧
      row a textScore = r := by
  unfold branch
  split
  · simp only [List.mem_filterMap, Table.mem_findMany, Bool.and_eq_true, List.contains_iff_mem, Option.map_eq_some_iff]
    constructor
    · rintro ⟨a, ⟨ha, hmatch, hid⟩, hrow⟩
      exact ⟨a, ha, hmatch, hid, hrow⟩
    · rintro ⟨a, ha, hmatch, hid, hrow⟩
      exact ⟨a, ⟨ha, hmatch, hid⟩, hrow⟩
  · next hempty =>
    obtain rfl : ids = [] := List.length_eq_zero_iff.mp (Nat.eq_zero_of_not_pos hempty)
    simp

/-- Rows that are made of the elements of a list keep their keys. -/
theorem map_filterMap_sublist {β κ : Type} {f : α → Option β} {g : α → κ} {k : β → κ}
    (h : ∀ a b, f a = some b → k b = g a) (l : List α) : ((l.filterMap f).map k).Sublist (l.map g) := by
  induction l with
  | nil => simp
  | cons a l ih =>
    cases ha : f a with
    | none =>
      rw [List.filterMap_cons_none ha]
      exact ih.cons _
    | some b =>
      rw [List.filterMap_cons_some ha, List.map_cons, List.map_cons, h a b ha]
      exact ih.cons_cons _

omit [LinearOrder Score] in
theorem nodup_branch (hid : ∀ a textScore, (row a textScore).id = key a) :
    ((branch pg order table isMatch ids query text row).map KnowledgeSearchRow.id).Nodup := by
  unfold branch
  split
  · have hrows : ((table.findMany order fun a => isMatch a && ids.contains (key a)).map key).Nodup := Table.nodup_findMany
    refine hrows.sublist ?_
    refine map_filterMap_sublist (fun a r hr => ?_) _
    obtain ⟨textScore, -, rfl⟩ := Option.map_eq_some_iff.mp hr
    exact hid a textScore
  · simp

omit [LinearOrder Score] in
theorem kind_of_mem_branch (kind : Wiki.KnowledgeKind) (hkind : ∀ a textScore, (row a textScore).kind = kind)
    {r : KnowledgeSearchRow Score} (h : r ∈ branch pg order table isMatch ids query text row) : r.kind = kind := by
  obtain ⟨a, -, -, -, textScore, -, rfl⟩ := mem_branch.mp h
  exact hkind a textScore

end Branch

theorem hasRow_page {page : Wiki.Page} (h : page ∈ st.db.knowledge.pages) : HasRow st.db.knowledge .page page.id := by
  rw [HasRow, Table.find_of_mem h]
  rfl

theorem hasRow_note {note : Wiki.Note} (h : note ∈ st.db.knowledge.notes) : HasRow st.db.knowledge .note note.id := by
  rw [HasRow, Table.find_of_mem h]
  rfl

theorem hasRow_standard {standard : Wiki.Standard} (h : standard ∈ st.db.knowledge.standards) :
    HasRow st.db.knowledge .standard standard.id := by
  rw [HasRow, Table.find_of_mem h]
  rfl

theorem noteMatches_of_noteWhere {note : Wiki.Note} (h : noteWhere st context note = true) :
    noteMatches st note = true := by
  unfold noteWhere at h
  unfold noteMatches
  simp only [Bool.and_eq_true] at h ⊢
  exact h.1

section Ranked

variable {ranked : List (KnowledgeSearchRow Score)} (h : rankedRows pg order st context now kinds query = .ok ranked)
include h

/-- **The rows with a positive score are the hits.** -/
theorem mem_ranked_iff {row : KnowledgeSearchRow Score} :
    row ∈ ranked ∧ pg.zero < row.score ↔ Hit pg order st context now kinds query row := by
  obtain ⟨wikiIds, hwiki, h⟩ := bind_eq_ok.mp h
  obtain ⟨noteIds, hnote, h⟩ := bind_eq_ok.mp h
  obtain ⟨standardIds, hstandard, h⟩ := bind_eq_ok.mp h
  have hwikiIds := mem_visibleIds (by decide) (fun page hpage => hasRow_page hpage) hwiki
  have hnoteIds := mem_visibleIds (by decide) (fun note hnote => hasRow_note hnote) hnote
  have hstandardIds := mem_visibleIds (by decide) (fun standard hstandard => hasRow_standard hstandard) hstandard
  rw [← pure_eq_ok.mp h, List.mem_append, List.mem_append, mem_branch, mem_branch, mem_branch]
  constructor
  · rintro ⟨(⟨page, hpage, hmatch, hid, textScore, htext, rfl⟩ | ⟨note, hnote, hmatch, hid, textScore, htext, rfl⟩) |
      ⟨standard, hstandard, hmatch, hid, textScore, htext, rfl⟩, hscore⟩
    · obtain ⟨hwanted, hvisible, hread⟩ := (hwikiIds page hpage).mp hid
      exact .page (List.contains_iff_mem.mp hwanted) hpage hvisible hread htext hscore
    · obtain ⟨hwanted, hvisible, hread⟩ := (hnoteIds note hnote).mp hid
      exact .note (List.contains_iff_mem.mp hwanted) hnote hvisible hread htext hscore
    · obtain ⟨hwanted, hvisible, hread⟩ := (hstandardIds standard hstandard).mp hid
      exact .standard (List.contains_iff_mem.mp hwanted) hstandard hvisible hread htext hscore
  · intro hhit
    cases hhit with
    | @page page textScore hwanted hpage hvisible hread htext hscore =>
      exact ⟨Or.inl
        (Or.inl ⟨page, hpage, hvisible, (hwikiIds page hpage).mpr ⟨List.contains_iff_mem.mpr hwanted, hvisible, hread⟩,
        textScore, htext, rfl⟩), hscore⟩
    | @note note textScore hwanted hnote hvisible hread htext hscore =>
      exact ⟨Or.inl (Or.inr ⟨note, hnote, noteMatches_of_noteWhere hvisible,
        (hnoteIds note hnote).mpr ⟨List.contains_iff_mem.mpr hwanted, hvisible, hread⟩, textScore, htext, rfl⟩), hscore⟩
    | @standard standard textScore hwanted hstandard hvisible hread htext hscore =>
      exact ⟨Or.inr ⟨standard, hstandard, hvisible,
        (hstandardIds standard hstandard).mpr ⟨List.contains_iff_mem.mpr hwanted, hvisible, hread⟩, textScore,
          htext, rfl⟩, hscore⟩

omit [LinearOrder Key] [LinearOrder Score] in
/-- Rows have places of their own. -/
theorem nodup_rowPlace : (ranked.map (rowPlace collation)).Nodup := by
  obtain ⟨wikiIds, -, h⟩ := bind_eq_ok.mp h
  obtain ⟨noteIds, -, h⟩ := bind_eq_ok.mp h
  obtain ⟨standardIds, -, h⟩ := bind_eq_ok.mp h
  have hpairs : (ranked.map fun row => (row.kind, row.id)).Nodup := by
    have hbranch : ∀ {l : List (KnowledgeSearchRow Score)}, (l.map KnowledgeSearchRow.id).Nodup →
        (l.map fun row => (row.kind, row.id)).Nodup := by
      intro l hl
      refine List.Nodup.of_map Prod.snd ?_
      rw [List.map_map]
      exact hl
    rw [← pure_eq_ok.mp h, List.map_append, List.map_append, List.nodup_append, List.nodup_append]
    refine ⟨⟨hbranch (nodup_branch fun _ _ => rfl), hbranch (nodup_branch fun _ _ => rfl), ?_⟩,
      hbranch (nodup_branch fun _ _ => rfl), ?_⟩
    · intro a ha b hb heq
      obtain ⟨row, hrow, rfl⟩ := List.mem_map.mp ha
      obtain ⟨other, hother, rfl⟩ := List.mem_map.mp hb
      have hkind := congrArg Prod.fst heq
      simp only [kind_of_mem_branch .wiki (fun _ _ => rfl) hrow,
        kind_of_mem_branch .note (fun _ _ => rfl) hother, reduceCtorEq] at hkind
    · intro a ha b hb heq
      obtain ⟨other, hother, rfl⟩ := List.mem_map.mp hb
      have hstandard := kind_of_mem_branch .standard (fun _ _ => rfl) hother
      rcases List.mem_append.mp ha with ha | ha
      · obtain ⟨row, hrow, rfl⟩ := List.mem_map.mp ha
        have hkind := congrArg Prod.fst heq
        simp only [kind_of_mem_branch .wiki (fun _ _ => rfl) hrow, hstandard, reduceCtorEq] at hkind
      · obtain ⟨row, hrow, rfl⟩ := List.mem_map.mp ha
        have hkind := congrArg Prod.fst heq
        simp only [kind_of_mem_branch .note (fun _ _ => rfl) hrow, hstandard, reduceCtorEq] at hkind
  refine List.Nodup.of_map
    (fun place => ((ofLex (ofLex (ofLex place).2).2).1, OrderDual.ofDual (ofLex (ofLex (ofLex place).2).2).2)) ?_
  have hkeys :
      Function.Injective fun pair : Wiki.KnowledgeKind × String => (collation.key pair.1.text, collation.key pair.2) := by
    intro a b heq
    obtain ⟨hkind, hid⟩ := Prod.mk.inj heq
    exact Prod.ext (key_text_inj.mp hkind) (collation.injective hid)
  have hmapped := hpairs.map hkeys
  rw [List.map_map] at hmapped ⊢
  exact hmapped

end Ranked

theorem mem_allowedKinds {kind : Wiki.KnowledgeKind} :
    kind ∈ allowedKinds context requestedKinds ↔ kind ∈ requestedKinds ∧ kindScope kind ∈ context.scopes := by
  rw [allowedKinds, List.mem_filter, uniqueKinds, List.mem_insertionSort, Js.mem_distinct, List.contains_iff_mem]

omit [LinearOrder Score] in
/-- **The rows of a search are read** exactly if it can be answered, or nothing is allowed. -/
theorem rankedRows_isOk (hallowed : allowedKinds context requestedKinds ≠ []) :
    (∃ ranked, rankedRows pg order st context now (allowedKinds context requestedKinds) query = .ok ranked) ↔
      Searchable st context now requestedKinds := by
  have hwiki : (∃ ids, wikiAclWhere order st context = .ok ids) ↔
      Answerable st context st.db.knowledge.pages wikiWhere "pages:read" .pages .page :=
    aclWhere_isOk (by decide) (fun page hpage => hasRow_page hpage) fun _ => fits_page
  have hnotes : (∃ ids, noteAclWhere order st context = .ok ids) ↔
      Answerable st context st.db.knowledge.notes (noteWhere st context) "notes:read" .notes .note :=
    aclWhere_isOk (by decide) (fun note hnote => hasRow_note hnote) fun _ => fits_note
  have hstandards : (∃ ids, standardAclWhere order st context now = .ok ids) ↔
      Answerable st context st.db.knowledge.standards (standardWhere st now) "standards:read" .standards .standard :=
    aclWhere_isOk (by decide) (fun standard hstandard => hasRow_standard hstandard) fun _ => fits_standard
  constructor
  · rintro ⟨ranked, h⟩
    obtain ⟨wikiIds, hwikiIds, h⟩ := bind_eq_ok.mp h
    obtain ⟨noteIds, hnoteIds, h⟩ := bind_eq_ok.mp h
    obtain ⟨standardIds, hstandardIds, h⟩ := bind_eq_ok.mp h
    obtain ⟨kind, hkind⟩ := List.exists_mem_of_ne_nil _ hallowed
    refine ⟨⟨kind, mem_allowedKinds.mp hkind⟩, fun hmem hscope => hwiki.mp ?_, fun hmem hscope => hnotes.mp ?_,
      fun hmem hscope => hstandards.mp ?_⟩
    · exact visibleIds_isOk.mp ⟨wikiIds, hwikiIds⟩ (List.contains_iff_mem.mpr (mem_allowedKinds.mpr ⟨hmem, hscope⟩))
    · exact visibleIds_isOk.mp ⟨noteIds, hnoteIds⟩ (List.contains_iff_mem.mpr (mem_allowedKinds.mpr ⟨hmem, hscope⟩))
    · exact visibleIds_isOk.mp ⟨standardIds, hstandardIds⟩
        (List.contains_iff_mem.mpr (mem_allowedKinds.mpr ⟨hmem, hscope⟩))
  · intro hsearch
    have hwanted : ∀ {kind}, (allowedKinds context requestedKinds).contains kind = true →
        kind ∈ requestedKinds ∧ kindScope kind ∈ context.scopes :=
          fun h => mem_allowedKinds.mp (List.contains_iff_mem.mp h)
    obtain ⟨wikiIds, hwikiIds⟩ := visibleIds_isOk.mpr fun h => hwiki.mpr (hsearch.wiki (hwanted h).1 (hwanted h).2)
    obtain ⟨noteIds, hnoteIds⟩ := visibleIds_isOk.mpr fun h => hnotes.mpr (hsearch.notes (hwanted h).1 (hwanted h).2)
    obtain ⟨standardIds, hstandardIds⟩ := visibleIds_isOk.mpr fun h =>
      hstandards.mpr (hsearch.standards (hwanted h).1 (hwanted h).2)
    exact ⟨_, bind_eq_ok.mpr ⟨wikiIds, hwikiIds, bind_eq_ok.mpr ⟨noteIds, hnoteIds,
      bind_eq_ok.mpr ⟨standardIds, hstandardIds, rfl⟩⟩⟩⟩

/-- The ids of hits are made by the data store. -/
theorem Hit.uuid {row : KnowledgeSearchRow Score} (h : Hit pg order st context now kinds query row) :
    isUuid row.id = true := by
  cases h with
  | page _ hpage => exact st.pageIds _ hpage
  | note _ hnote => exact st.noteIds _ hnote
  | standard _ hstandard => exact st.standardIds _ hstandard

omit [LinearOrder Score] in
/-- What a call returns of the rows that are left. -/
theorem searchOutput_page {rest : List (KnowledgeSearchRow Score)} {limit : Nat} :
    ((searchOutput numbers hashing requestedKinds kinds query limit (rest.take (limit + 1))).results.zip
      (searchOutput numbers hashing requestedKinds kinds query limit (rest.take (limit + 1))).sources,
      (searchOutput numbers hashing requestedKinds kinds query limit (rest.take (limit + 1))).nextCursor) =
    ((page limit (fun row => encodeSearchCursor numbers hashing row (fingerprint query kinds)) rest).1.map fun row =>
      (searchResult row, searchSource row),
      (page limit (fun row => encodeSearchCursor numbers hashing row (fingerprint query kinds)) rest).2) := by
  simp only [searchOutput, page, decide_eq_true_eq, probe_eq]
  simp only [lt_length_probe, List.zip_map']

/-- The rows behind the last one that was read. -/
theorem searchRows_rest {ranked before rest : List (KnowledgeSearchRow Score)} {limit : Nat}
    (hranked : (ranked.map (rowPlace collation)).Nodup)
    (hsplit : IsSorted (rowPlace collation) (ranked.filter fun row => decide (pg.zero < row.score)) (before ++ rest)) :
    searchRows collation pg order (before.getLast?.map (payloadOf hashing query)) ranked limit = rest.take limit := by
  have hfilter : ((ranked.filter fun row => decide (pg.zero < row.score)).filter fun b =>
      (before.getLast?.map (rowPlace collation)).all fun place => decide (place < rowPlace collation b)).Perm
        (order.apply (ranked.filter fun row => decide (pg.zero < row.score) &&
          withSearchCursor collation (before.getLast?.map (payloadOf hashing query)) row)) := by
    refine (List.Perm.of_eq ?_).trans (order.perm _).symm
    rw [List.filter_filter]
    refine List.filter_congr fun row _ => ?_
    rw [withSearchCursor_eq, Option.map_map, Bool.and_comm]
    rfl
  have hnodup : ((order.apply (ranked.filter fun row => decide (pg.zero < row.score) &&
      withSearchCursor collation (before.getLast?.map (payloadOf hashing query)) row)).map
        (rowPlace collation)).Nodup := by
    rw [((order.perm _).map _).nodup_iff]
    exact hranked.sublist (List.filter_sublist.map _)
  rw [searchRows, (isSorted_insertionSort ranksFirst_iff hnodup).unique ((behind_last hsplit).of_perm hfilter)]

/-- **A search in pages is a partition** of the hits. -/
theorem searchKinds_partition {input : String} {limit : Nat} (hlimit : 0 < limit) :
    Partition (Searchable st context now requestedKinds)
      (Hit pg order st context now (allowedKinds context requestedKinds) (Js.trim input))
      (fun a b => b.score < a.score ∨ a.score = b.score ∧ (b.updatedAt < a.updatedAt ∨ a.updatedAt = b.updatedAt ∧
        (collation.key a.kind.text < collation.key b.kind.text ∨ a.kind = b.kind ∧
          collation.key b.id < collation.key a.id)))
      (fun row => (searchResult row, searchSource row))
      fun cursor =>
        (searchKinds collation pg numbers hashing order st context now requestedKinds
          ⟨input, limit, cursor⟩).map fun out =>
        (out.results.zip out.sources, out.nextCursor) := by
  have hisOk : allowedKinds context requestedKinds ≠ [] →
      ((∃ ranked, rankedRows pg order st context now (allowedKinds context requestedKinds) (Js.trim input) = .ok ranked) ↔
        Searchable st context now requestedKinds) := rankedRows_isOk
  have hallowed : Searchable st context now requestedKinds → allowedKinds context requestedKinds ≠ [] := by
    intro hsearch hnil
    obtain ⟨kind, hmem, hscope⟩ := hsearch.allowed
    exact List.not_mem_nil (hnil ▸ mem_allowedKinds.mpr ⟨hmem, hscope⟩)
  generalize hkindsDef : allowedKinds context requestedKinds = kinds at hisOk hallowed
  have hcall :
    ∀ cursor, searchKinds collation pg numbers hashing order st context now requestedKinds ⟨input, limit, cursor⟩ = (do
      throwIf (kinds.length = 0) (.forbidden "Für die angeforderten Wissenstypen fehlt die Leseberechtigung.")
      let position ← decodeSearchCursor pg numbers hashing cursor (fingerprint (Js.trim input) kinds)
      let ranked ← rankedRows pg order st context now kinds (Js.trim input)
      pure (searchOutput numbers hashing requestedKinds kinds (Js.trim input) limit
        (searchRows collation pg order position ranked (limit + 1)))) := by
    intro cursor
    rw [searchKinds, hkindsDef]
  simp only [hcall]
  by_cases hkinds : kinds.length = 0
  · refine .of_error (e := .forbidden "Für die angeforderten Wissenstypen fehlt die Leseberechtigung.")
      (fun hsearch => hallowed hsearch (List.length_eq_zero_iff.mp hkinds)) ?_
    rw [throwIf, if_pos hkinds]
    rfl
  cases hranked : rankedRows pg order st context now kinds (Js.trim input) with
  | error e =>
    refine .of_error (e := e) (fun hsearch => ?_) (by rw [throwIf, if_neg hkinds]; rfl)
    obtain ⟨ranked, h⟩ := (hisOk (hallowed hsearch)).mpr hsearch
    rw [hranked] at h
    cases h
  | ok ranked =>
    have hnodup : (ranked.map (rowPlace collation)).Nodup := nodup_rowPlace hranked
    have hsorted : IsSorted (rowPlace collation) (ranked.filter fun row => decide (pg.zero < row.score)) _ :=
      isSorted_insertionSort ranksFirst_iff (hnodup.sublist (List.filter_sublist.map _))
    have hmem : ∀ row, row ∈ ranked.filter (fun row => decide (pg.zero < row.score)) ↔
        Hit pg order st context now kinds (Js.trim input) row := by
      intro row
      rw [List.mem_filter, decide_eq_true_eq]
      exact mem_ranked_iff hranked
    have hlt : (fun a b : KnowledgeSearchRow Score => rowPlace collation a < rowPlace collation b) = fun a b =>
        b.score < a.score ∨ a.score = b.score ∧ (b.updatedAt < a.updatedAt ∨ a.updatedAt = b.updatedAt ∧
          (collation.key a.kind.text < collation.key b.kind.text ∨ a.kind = b.kind ∧
            collation.key b.id < collation.key a.id)) :=
      funext fun a => funext fun b => propext (by rw [rowPlace, rowPlace, searchPlace_lt]; simp only [eq_comm])
    rw [← hlt]
    refine partition_of_pages (fun row => encodeSearchCursor numbers hashing row (fingerprint (Js.trim input) kinds))
      ((hisOk fun hnil => hkinds (List.length_eq_zero_iff.mpr hnil)).mp ⟨ranked, hranked⟩) hsorted hmem hlimit
        fun before rest hsplit => ?_
    -- the cursor is the place of the last row that was read
    have hcursor : decodeSearchCursor pg numbers hashing
        (before.getLast?.map fun row => encodeSearchCursor numbers hashing row (fingerprint (Js.trim input) kinds))
        (fingerprint (Js.trim input) kinds) =
          .ok (before.getLast?.map (payloadOf hashing (fingerprint (Js.trim input) kinds))) := by
      cases hlast : before.getLast? with
      | none => rfl
      | some row =>
        have hrow := hsplit.perm.mem_iff.mp (List.mem_append_left _ (List.mem_of_getLast? hlast))
        have hscore : pg.zero < row.score := of_decide_eq_true (List.mem_filter.mp hrow).2
        exact decodeSearchCursor_encodeSearchCursor ((hmem row).mp hrow).uuid hscore.le
    rw [throwIf, if_neg hkinds, hcursor]
    show Except.ok _ = _
    rw [searchRows_rest hnodup hsplit]
    exact congrArg Except.ok searchOutput_page

end AdWiki.Knowledge.Lists
