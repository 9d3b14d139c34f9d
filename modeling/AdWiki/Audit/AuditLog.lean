import AdWiki.Access.Directory
import AdWiki.Common.Cursor
import AdWiki.Common.Http
import AdWiki.Common.IsoDate
import AdWiki.Lib.Fallible

/-!
# The audit log

`AuditService.findAll` lists the entries of the log, the newest first and in pages. A cursor that is none is read as the
beginning. What the language makes of the text of a date is a parameter (`Dates`).

* `decodeCursor_encodeCursor`: a cursor is read as the position that it was made of.
* `findAll_partition`: page after page, every entry that the filter lets through is listed once, in the order of the log.
-/

namespace AdWiki.Audit

open Cursor Fallible Keyset

/-- A row of `audit_logs`; the details are the text of a JSON value. -/
structure AuditLog where
  id : String
  userId : Option String
  action : String
  resource : String
  resourceId : Option String
  details : Option String
  ipAddress : Option String
  createdAt : IsoDate
  deriving DecidableEq, Repr

structure AuditDatabase where
  auditLogs : Table AuditLog.id
  users : Table Access.User.id

/-- `new Date(text)` for the texts that are dates, and how dates compare. -/
structure Dates (Instant : Type) [LinearOrder Instant] where
  instant : IsoDate → Instant
  parse : String → Option Instant
  instant_lt : ∀ a b, instant a < instant b ↔ a < b
  parse_toISOString : ∀ date, parse date.toISOString = some (instant date)

structure AuditLogQuery where
  resource : Option String
  action : Option String
  userId : Option String
  fromDate : Option String
  toDate : Option String
  cursor : Option String
  perPage : Nat
  deriving DecidableEq, Repr

/-- The user of an entry, as it is shown. -/
structure AuditUser where
  id : String
  displayName : String
  deriving DecidableEq, Repr

/-- An entry of the response. -/
structure AuditLogEntry where
  id : String
  action : String
  resource : String
  resourceId : Option String
  details : Option String
  ipAddress : Option String
  createdAt : String
  userId : Option String
  user : Option AuditUser
  deriving DecidableEq, Repr

structure AuditLogPage where
  data : List AuditLogEntry
  total : Nat
  perPage : Nat
  nextCursor : Option String
  deriving DecidableEq, Repr

/-! ## Cursors -/

def encodeCursor (createdAt : IsoDate) (id : String) : String :=
  toBase64Url (.object [("c", .string createdAt.toISOString), ("i", .string id)])

section Service

variable {Instant Key : Type} [LinearOrder Instant] [LinearOrder Key] (dates : Dates Instant) (collation : Collation Key)
  (order : RowOrder) (db : AuditDatabase)

def decodeCursor (raw : String) : Option (Instant × String) := do
  let parsed ← ofBase64Url raw
  let c ← textMember "c" parsed
  let i ← textMember "i" parsed
  let createdAt ← dates.parse c
  some (createdAt, i)

/-! ## The list -/

/-- A filter by a text, which an empty text is not. -/
def textFilter (filter : Option String) (value : Option String) : Bool :=
  (filter.filter (· ≠ "")).all fun text => value == some text

/-- A bound of the dates: `none`, where there is none. The data store refuses a text that is no date. -/
def dateBound (text : Option String) : Except HttpError (Option Instant) :=
  match text.filter (· ≠ "") with
  | none => .ok none
  | some text => (ofOption (dates.parse text) (.internal "Provided Date object is invalid. Expected Date.")).map some

/-- `filterWhere` -/
def filterWhere (query : AuditLogQuery) (gte lte : Option Instant) (log : AuditLog) : Bool :=
  textFilter query.resource (some log.resource) && textFilter query.action (some log.action) &&
    textFilter query.userId log.userId &&
    gte.all (fun bound => decide (bound ≤ dates.instant log.createdAt)) && lte.all fun bound =>
      decide (dates.instant log.createdAt ≤ bound)

def toApi (log : AuditLog) : AuditLogEntry where
  id := log.id
  action := log.action
  resource := log.resource
  resourceId := log.resourceId
  details := log.details
  ipAddress := log.ipAddress
  createdAt := log.createdAt.toISOString
  userId := log.userId
  user := (log.userId.bind db.users.find).map fun user => ⟨user.id, user.displayName⟩

def findAll (query : AuditLogQuery) : Except HttpError AuditLogPage := do
  let gte ← dateBound dates query.fromDate
  let lte ← dateBound dates query.toDate
  let cursor := (query.cursor.filter (· ≠ "")).bind (decodeCursor dates)
  let total := (db.auditLogs.rows.filter (filterWhere dates query gte lte)).length
  let rows := ((db.auditLogs.findMany order fun log => filterWhere dates query gte lte log &&
    isBehind collation cursor (dates.instant log.createdAt) log.id).insertionSort
      (newestFirst collation (fun log => dates.instant log.createdAt) AuditLog.id)).take (query.perPage + 1)
  let hasMore := decide (query.perPage < rows.length)
  let pageRows := if hasMore then rows.take query.perPage else rows
  pure
    { data := pageRows.map (toApi db)
      total := total
      perPage := query.perPage
      nextCursor := if hasMore then pageRows.getLast?.map fun last => encodeCursor last.createdAt last.id else none }

end Service

variable {Instant Key : Type} [LinearOrder Instant] [LinearOrder Key] {dates : Dates Instant} {collation : Collation Key}
  {order : RowOrder} {db : AuditDatabase} {query : AuditLogQuery} {gte lte : Option Instant}

/-- **A cursor is read as the position that it was made of.** -/
theorem decodeCursor_encodeCursor (createdAt : IsoDate) (id : String) :
    decodeCursor dates (encodeCursor createdAt id) = some (dates.instant createdAt, id) := by
  rw [decodeCursor, encodeCursor, ofBase64Url_toBase64Url]
  show (dates.parse createdAt.toISOString).bind _ = _
  rw [dates.parse_toISOString]
  rfl

/-- The entries that the filter lets through. -/
def Shown (dates : Dates Instant) (db : AuditDatabase) (query : AuditLogQuery) (log : AuditLog) : Prop :=
  log ∈ db.auditLogs ∧ ∃ gte lte, dateBound dates query.fromDate = .ok gte ∧ dateBound dates query.toDate = .ok lte ∧
    filterWhere dates query gte lte log = true

/-- The bounds of the filter are dates. -/
def BoundsRead (dates : Dates Instant) (query : AuditLogQuery) : Prop :=
  ∀ text, text ≠ "" → query.fromDate = some text ∨ query.toDate = some text → (dates.parse text).isSome = true

theorem dateBound_isOk {text : Option String} : (∃ bound, dateBound dates text = .ok bound) ↔
    ∀ value, value ≠ "" → text = some value → (dates.parse value).isSome = true := by
  cases text with
  | none => exact iff_of_true ⟨none, rfl⟩ (by simp)
  | some value =>
    by_cases hempty : value = ""
    · subst hempty
      exact iff_of_true ⟨none, rfl⟩ fun value hne hsame => absurd (Option.some.inj hsame).symm hne
    · have hbound : dateBound dates (some value) =
          (ofOption (dates.parse value) (.internal "Provided Date object is invalid. Expected Date.")).map some := by
        simp [dateBound, Option.filter_some, hempty]
      rw [hbound]
      cases hparse : dates.parse value with
      | none =>
        refine iff_of_false ?_ fun hread => ?_
        · rintro ⟨bound, h⟩
          cases h
        · have hsome := hread value hempty rfl
          rw [hparse] at hsome
          cases hsome
      | some instant =>
        refine iff_of_true ⟨some instant, rfl⟩ fun other _ hsame => ?_
        rw [← Option.some.inj hsame, hparse]
        rfl

theorem instant_injective : Function.Injective dates.instant := by
  intro a b h
  rcases lt_trichotomy a b with hlt | heq | hgt
  · exact absurd ((dates.instant_lt a b).mpr hlt) (h ▸ lt_irrefl _)
  · exact heq
  · exact absurd ((dates.instant_lt b a).mpr hgt) (h ▸ lt_irrefl _)

/-- The place of an entry. -/
def logPlace (dates : Dates Instant) (collation : Collation Key) (log : AuditLog) : (Instant ×ₗ Key)ᵒᵈ :=
  place collation (dates.instant log.createdAt) log.id

/-- The query behind the last entry that was read. -/
theorem rows_rest {before rest : List AuditLog}
    (hsplit : IsSorted (logPlace dates collation) (db.auditLogs.rows.filter (filterWhere dates query gte lte))
      (before ++ rest)) :
    (db.auditLogs.findMany order fun log => filterWhere dates query gte lte log &&
      isBehind collation (before.getLast?.map fun log => (dates.instant log.createdAt, log.id))
        (dates.instant log.createdAt)
        log.id).insertionSort (newestFirst collation (fun log => dates.instant log.createdAt) AuditLog.id) = rest :=
  findMany_behind (.refl _) hsplit

/-- **The log in pages is a partition** of the entries that the filter lets through, if its bounds are dates. -/
theorem findAll_partition (hlimit : 0 < query.perPage) :
    Partition (BoundsRead dates query) (Shown dates db query)
      (fun a b => b.createdAt < a.createdAt ∨ a.createdAt = b.createdAt ∧
        collation.key b.id < collation.key a.id) (toApi db)
      fun cursor => (findAll dates collation order db { query with cursor := cursor }).map fun out =>
        (out.data, out.nextCursor) := by
  have hfrom : BoundsRead dates query → ∃ bound, dateBound dates query.fromDate = .ok bound := fun hread =>
    dateBound_isOk.mpr fun text hne htext => hread text hne (Or.inl htext)
  have hto : BoundsRead dates query → ∃ bound, dateBound dates query.toDate = .ok bound := fun hread =>
    dateBound_isOk.mpr fun text hne htext => hread text hne (Or.inr htext)
  cases hgte : dateBound dates query.fromDate with
  | error e =>
    refine .of_error (e := e) (fun hread => ?_) (by simp only [findAll, hgte]; rfl)
    obtain ⟨bound, hbound⟩ := hfrom hread
    rw [hgte] at hbound
    cases hbound
  | ok gte =>
    cases hlte : dateBound dates query.toDate with
    | error e =>
      refine .of_error (e := e) (fun hread => ?_) (by simp only [findAll, hgte, hlte]; rfl)
      obtain ⟨bound, hbound⟩ := hto hread
      rw [hlte] at hbound
      cases hbound
    | ok lte =>
      have hread : BoundsRead dates query := by
        rintro text hne (htext | htext)
        · exact dateBound_isOk.mp ⟨gte, hgte⟩ text hne htext
        · exact dateBound_isOk.mp ⟨lte, hlte⟩ text hne htext
      let shown := db.auditLogs.rows.filter (filterWhere dates query gte lte)
      have hmem : ∀ log, log ∈ shown ↔ Shown dates db query log := by
        intro log
        rw [List.mem_filter]
        constructor
        · rintro ⟨hlog, hfilter⟩
          exact ⟨hlog, gte, lte, hgte, hlte, hfilter⟩
        · rintro ⟨hlog, gte', lte', hgte', hlte', hfilter⟩
          rw [hgte] at hgte'
          rw [hlte] at hlte'
          cases hgte'
          cases hlte'
          exact ⟨hlog, hfilter⟩
      have hsorted : IsSorted (logPlace dates collation) shown _ := isSorted_insertionSort newestFirst_iff
        (nodup_place (db.auditLogs.unique.sublist (List.filter_sublist.map _)))
      have hlt : (fun a b : AuditLog => logPlace dates collation a < logPlace dates collation b) = fun a b =>
          b.createdAt < a.createdAt ∨ a.createdAt = b.createdAt ∧ collation.key b.id < collation.key a.id :=
        funext fun a => funext fun b =>
          propext (by rw [logPlace, logPlace, place_lt, dates.instant_lt, instant_injective.eq_iff])
      rw [← hlt]
      refine partition_of_pages (fun log => encodeCursor log.createdAt log.id) hread hsorted hmem hlimit
        fun before rest hsplit => ?_
      -- the cursor is the place of the last entry that was read
      have hcursor :
        ((before.getLast?.map fun log => encodeCursor log.createdAt log.id).filter (· ≠ "")).bind (decodeCursor dates) =
          before.getLast?.map fun log => (dates.instant log.createdAt, log.id) := by
        cases before.getLast? with
        | none => rfl
        | some log =>
          have hne : encodeCursor log.createdAt log.id ≠ "" := toBase64Url_ne_empty _
          simp only [Option.map_some, Option.filter_some, hne, ne_eq, not_false_eq_true, decide_true, if_true,
            Option.bind_some, decodeCursor_encodeCursor]
      have hfilter :
          ∀ cursor, filterWhere dates { query with cursor := cursor } gte lte = filterWhere dates query gte lte :=
        fun _ => rfl
      simp only [findAll, hgte, hlte]
      show Except.ok _ = _
      simp only [hcursor, hfilter, rows_rest hsplit, page, decide_eq_true_eq, probe_eq]
      simp only [lt_length_probe]

end AdWiki.Audit
