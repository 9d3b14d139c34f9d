import AdWiki.Integrations.Tables
import AdWiki.Lib.Interleave

/-!
# The synchronisation with Microsoft To Do

`performSync` as its statements: the calls of Graph and the statements and `$transaction` blocks of the data store. A
task that has been fetched is imported, or its link is reconciled; after that a note goes to the trash when its link has
not been met and the list of the link has been fetched.
-/

namespace AdWiki.Integrations

structure SyncCounts where
  importedCount : Nat
  skippedCount : Nat
  failedCount : Nat
  updatedCount : Nat
  deletedCount : Nat
  deriving DecidableEq, Repr

inductive SyncError
  | unanswered (message : String)
  | recordNotFound
  | badGateway (message : String)
  deriving DecidableEq, Repr

inductive Outcome
  | updated
  | deleted
  | skipped
  | imported
  deriving DecidableEq, Repr

structure FetchedTask where
  listId : String
  task : MicrosoftTodoTaskRecord
  deriving DecidableEq, Repr

/-- What has been fetched so far. -/
structure Fetch where
  tasksByExternalId : OrderedMap String FetchedTask
  fetchedListIds : List String
  failedCount : Nat

/-- The variables of the run after the tasks and the links have been read. -/
structure SyncRun where
  mappings : List ExternalItemMapping
  fetchedListIds : List String
  processedMappings : List String
  counts : SyncCounts

/-- The columns that reconciling a link writes. -/
structure LinkState where
  lastLocalHash : String
  lastExternalHash : String
  localUpdatedAt : Int
  externalUpdatedAt : Int
  deriving DecidableEq, Repr

/-- The next statement, with what the run has in hand; `todo` is what is left of the loop. -/
inductive SyncPoint
  | accessToken
  | listTodoLists
  | listTasks (lists : List MicrosoftTodoListRecord) (fetch : Fetch) (listId : String) (todo : List String)
  | findMappings (fetch : Fetch)
  | importTask (run : SyncRun) (fetched : FetchedTask) (todo : List FetchedTask)
  | readNote (run : SyncRun) (mapping : ExternalItemMapping) (task : MicrosoftTodoTaskRecord) (todo : List FetchedTask)
  | updateNote (run : SyncRun) (mapping : ExternalItemMapping) (task : MicrosoftTodoTaskRecord) (externalUpdatedAt : Int)
      (todo : List FetchedTask)
  | updateTask (run : SyncRun) (mapping : ExternalItemMapping) (task : MicrosoftTodoTaskRecord) (note : Note)
      (todo : List FetchedTask)
  | updateMapping (run : SyncRun) (mapping : ExternalItemMapping) (state : Option LinkState) (outcome : Outcome)
      (todo : List FetchedTask)
  | readDeleted (run : SyncRun) (mapping : ExternalItemMapping) (todo : List ExternalItemMapping)
  | deleteNote (run : SyncRun) (mapping : ExternalItemMapping) (noteId : String) (todo : List ExternalItemMapping)
  | finish (counts : SyncCounts)
  | done (result : Except SyncError SyncCounts)

/-- Whether the statement is answered, the clock, the order of a query's rows, new ids, and the time that Graph gives a
task that is written. -/
structure SyncChoice where
  failure : Option String
  now : Int
  order : RowOrder
  noteId : String
  mappingId : String
  lastModifiedDateTime : Option String

def SyncCounts.add (counts : SyncCounts) : Outcome → SyncCounts
  | .updated => { counts with updatedCount := counts.updatedCount + 1 }
  | .deleted => { counts with deletedCount := counts.deletedCount + 1 }
  | .skipped => { counts with skippedCount := counts.skippedCount + 1 }
  | .imported => { counts with importedCount := counts.importedCount + 1 }

namespace SyncRun

def add (run : SyncRun) (outcome : Outcome) : SyncRun := { run with counts := run.counts.add outcome }

def process (run : SyncRun) (mapping : ExternalItemMapping) : SyncRun :=
  { run with processedMappings := mapping.id :: run.processedMappings }

/-- `mappingsByExternalId.get(task.id)` -/
def mappingOf (run : SyncRun) (externalId : String) : Option ExternalItemMapping :=
  (Table.index ExternalItemMapping.externalId run.mappings).get? externalId

/-- The links that the second loop leaves out. -/
def passes (run : SyncRun) (mapping : ExternalItemMapping) : Bool :=
  run.processedMappings.contains mapping.id || mapping.detachedAt.isSome || mapping.externalDeletedAt.isSome ||
    !mapping.externalListId.any fun listId => listId != "" && run.fetchedListIds.contains listId

end SyncRun

/-! ## Loops -/

/-- The loop over the selected lists. -/
def listLoop (lists : List MicrosoftTodoListRecord) (fetch : Fetch) : List String → SyncPoint
  | [] => .findMappings fetch
  | listId :: todo =>
    if lists.any (·.id = listId) then .listTasks lists fetch listId todo
    else listLoop lists { fetch with failedCount := fetch.failedCount + 1 } todo

/-- The loop over the links. -/
def deletionLoop (run : SyncRun) : List ExternalItemMapping → SyncPoint
  | [] => .finish run.counts
  | mapping :: todo => if run.passes mapping then deletionLoop run todo else .readDeleted run mapping todo

/-- The loop over the tasks. -/
def taskLoop (run : SyncRun) : List FetchedTask → SyncPoint
  | [] => deletionLoop run run.mappings
  | fetched :: todo =>
    match run.mappingOf fetched.task.id with
    | none => if fetched.task.id = "" then taskLoop (run.add .skipped) todo else .importTask run fetched todo
    | some mapping =>
      if mapping.detachedAt.isSome then taskLoop ((run.process mapping).add .skipped) todo
      else .readNote (run.process mapping) mapping fetched.task todo

/-! ## Statements -/

/-- The links that `performSync` reads. -/
def ConnectionRecord.reads (connection : ConnectionRecord) (mapping : ExternalItemMapping) : Bool :=
  mapping.connectionId = connection.id && mapping.localResourceType = "note" &&
    mapping.externalListId.any connection.selectedListIds.contains

def setTasks (fetch : Fetch) (listId : String) (tasks : List GraphTask) : Fetch where
  tasksByExternalId := fetch.tasksByExternalId.setAll
    (tasks.map fun task => (task.id, ⟨listId, task.toMicrosoftTodoTaskRecord⟩))
  fetchedListIds := listId :: fetch.fetchedListIds
  failedCount := fetch.failedCount

def touch (st : Store) (mapping : ExternalItemMapping) (now : Int) : Store :=
  st.updateMapping mapping.id (fun mapping => { mapping with lastSyncedAt := now }) (fun _ => rfl)
    (fun _ => rfl) fun _ => rfl

def relink (st : Store) (mapping : ExternalItemMapping) (state : LinkState) (now : Int) : Store :=
  st.updateMapping mapping.id
    (fun mapping => { mapping with
      lastLocalHash := some state.lastLocalHash
      lastExternalHash := some state.lastExternalHash
      localUpdatedAt := some state.localUpdatedAt
      externalUpdatedAt := some state.externalUpdatedAt
      externalDeletedAt := none
      lastSyncedAt := now })
    (fun _ => rfl) (fun _ => rfl) fun _ => rfl

/-- The update of a link that has been reconciled. -/
def writeLink (st : Store) (mapping : ExternalItemMapping) (state : Option LinkState) (now : Int) : Store :=
  match state with
  | none => touch st mapping now
  | some state => relink st mapping state now

/-- The text that a task gives its note. -/
def noteOfTask (task : MicrosoftTodoTaskRecord) : NoteText where
  title := some (Js.orElse (Js.slice 200 (trimmedTitle task.title)) untitledTask)
  content := taskContent task

/-- `note.update` where the task wins. -/
def overwriteNote (st : Store) (noteId : String) (task : MicrosoftTodoTaskRecord) (now : Int) : Store :=
  st.updateNote noteId (fun note => { note with toNoteText := noteOfTask task, updatedAt := now }) fun _ => rfl

/-- The task with the text of a note. -/
def taskOfNote (note : Note) (lastModifiedDateTime : Option String) (task : GraphTask) : GraphTask :=
  { task with
    title := some (noteTitle note.toNoteText)
    body := some (noteBody note.content)
    lastModifiedDateTime := lastModifiedDateTime }

/-- `graph.updateTask` -/
def overwriteTask (st : Store) (taskId : String) (note : Note) (lastModifiedDateTime : Option String) : Store :=
  st.updateTask taskId (taskOfNote note lastModifiedDateTime) fun _ => rfl

def discardNote (st : Store) (noteId userId : String) (now : Int) : Store :=
  st.updateNote noteId (fun note => { note with deletedAt := some now, deletedById := some userId, updatedAt := now })
    fun _ => rfl

/-- The transaction for a link whose task is gone. -/
def trashNote (st : Store) (mapping : ExternalItemMapping) (noteId userId : String) (now : Int) : Store :=
  (discardNote st noteId userId now).updateMapping mapping.id
    (fun mapping => { mapping with externalDeletedAt := some now, lastSyncedAt := now }) (fun _ => rfl) (fun _ => rfl)
    fun _ => rfl

section Statements

variable (env : Env) (connection : ConnectionRecord) (userId : String)

/-- `note.create` in the import of a task. -/
def importedNote (task : MicrosoftTodoTaskRecord) (c : SyncChoice) : Note where
  title := some (Js.orElse (trimmedTitle task.title) untitledTask)
  content := taskContent task
  id := c.noteId
  ownerId := userId
  status := .captured
  mcpVisible := false
  deletedAt := none
  deletedById := none
  updatedAt := c.now

def importedMapping (fetched : FetchedTask) (c : SyncChoice) : ExternalItemMapping where
  id := c.mappingId
  connectionId := connection.id
  externalId := fetched.task.id
  externalListId := some fetched.listId
  localResourceType := "note"
  localResourceId := c.noteId
  direction := .import
  lastLocalHash := some (localHash env (importedNote userId fetched.task c).toNoteText)
  lastExternalHash := some (externalHash env fetched.task)
  localUpdatedAt := some c.now
  externalUpdatedAt := some (externalUpdatedAt env fetched.task c.now)
  detachedAt := none
  externalDeletedAt := none
  lastSyncedAt := c.now

/-- The ids of a new note and a new link are new. -/
def freshIds (st : Store) (c : SyncChoice) : Bool :=
  (st.notes.find c.noteId).isNone && (st.mappings.find c.mappingId).isNone &&
    st.mappings.rows.all fun mapping => mapping.localResourceId != c.noteId

/-- The transaction of `importTask`. -/
def importTask (st : Store) (fetched : FetchedTask) (c : SyncChoice) : Store × Outcome :=
  match st.linkOf connection fetched.task.id with
  | some existing => (touch st existing c.now, .skipped)
  | none =>
    match (st.createNote (importedNote userId fetched.task c)).bind
      fun st => st.createMapping (importedMapping env connection userId fetched c) with
    | none => (st, .skipped)
    | some st => (st, .imported)

/-- The decision of `reconcileTask` about a note that is there. -/
def reconcile (run : SyncRun) (mapping : ExternalItemMapping) (task : MicrosoftTodoTaskRecord) (note : Note)
    (todo : List FetchedTask) (now : Int) : SyncPoint :=
  let updatedAt := externalUpdatedAt env task now
  let localChanged := mapping.lastLocalHash != some (localHash env note.toNoteText)
  let externalChanged := mapping.lastExternalHash != some (externalHash env task)
  if mapping.lastLocalHash.getD "" = "" ∨ mapping.lastExternalHash.getD "" = "" then
    .updateMapping run mapping (some ⟨localHash env note.toNoteText, externalHash env task, note.updatedAt, updatedAt⟩)
      .skipped todo
  else if !localChanged && !externalChanged then .updateMapping run mapping none .skipped todo
  else if externalChanged && (!localChanged || note.updatedAt < updatedAt) then
    .updateNote run mapping task updatedAt todo
  else .updateTask run mapping task note todo

def failed (st : Store) (e : SyncError) : Option (Store × SyncPoint) := some (st, .done (.error e))

def answered (st : Store) (point : SyncPoint) (c : SyncChoice) : Option (Store × SyncPoint) :=
  match point with
  | .accessToken => some (st, .listTodoLists)
  | .listTodoLists =>
    let lists := st.graph.lists.findMany c.order fun _ => true
    some (st, listLoop lists ⟨OrderedMap.empty, [], 0⟩ connection.selectedListIds)
  | .listTasks lists fetch listId todo =>
    let tasks := st.graph.tasks.findMany c.order fun task => task.listId = listId
    some (st, listLoop lists (setTasks fetch listId tasks) todo)
  | .findMappings fetch =>
    let run : SyncRun :=
      ⟨st.mappings.findMany c.order connection.reads, fetch.fetchedListIds, [], ⟨0, 0, fetch.failedCount, 0, 0⟩⟩
    some (st, taskLoop run fetch.tasksByExternalId.values)
  | .importTask run fetched todo =>
    if freshIds st c then
      let (st, outcome) := importTask env connection userId st fetched c
      some (st, taskLoop (run.add outcome) todo)
    else none
  | .readNote run mapping task todo =>
    match st.notes.find mapping.localResourceId with
    | none => some (st, taskLoop (run.add .skipped) todo)
    | some note =>
      if note.deletedAt.isSome then some (st, taskLoop (run.add .skipped) todo)
      else some (st, reconcile env run mapping task note todo c.now)
  | .updateNote run mapping task updatedAt todo =>
    match st.notes.find mapping.localResourceId with
    | none => failed st .recordNotFound
    | some note =>
      let updatedNote : Note := { note with toNoteText := noteOfTask task, updatedAt := c.now }
      some (overwriteNote st mapping.localResourceId task c.now,
        .updateMapping run mapping
          (some ⟨localHash env updatedNote.toNoteText, externalHash env task, updatedNote.updatedAt, updatedAt⟩)
            .updated todo)
  | .updateTask run mapping task note todo =>
    match (st.graph.tasks.find task.id).filter fun stored => mapping.externalListId = some stored.listId with
    | none => failed st (.badGateway "Microsoft Graph antwortete mit HTTP 404.")
    | some stored =>
      let updatedTask := (taskOfNote note c.lastModifiedDateTime stored).toMicrosoftTodoTaskRecord
      some (overwriteTask st task.id note c.lastModifiedDateTime,
        .updateMapping run mapping
          (some ⟨localHash env note.toNoteText, externalHash env updatedTask, note.updatedAt,
            externalUpdatedAt env updatedTask c.now⟩) .updated todo)
  | .updateMapping run mapping state outcome todo =>
    if (st.mappings.find mapping.id).isNone then failed st .recordNotFound
    else some (writeLink st mapping state c.now, taskLoop (run.add outcome) todo)
  | .readDeleted run mapping todo =>
    match st.notes.find mapping.localResourceId with
    | none => some (st, deletionLoop (run.add .skipped) todo)
    | some note =>
      if note.deletedAt.isSome then some (st, deletionLoop (run.add .skipped) todo)
      else some (st, .deleteNote run mapping note.id todo)
  | .deleteNote run mapping noteId todo =>
    if (st.notes.find noteId).isNone ∨ (st.mappings.find mapping.id).isNone then failed st .recordNotFound
    else some (trashNote st mapping noteId userId c.now, deletionLoop (run.add .deleted) todo)
  | .finish counts => some (st, .done (.ok counts))
  | .done _ => none

/-- The next statement, which ends the run where it is not answered. -/
def syncStmt (st : Store) (_ : Nat) (point : SyncPoint) (c : SyncChoice) : Option (Store × SyncPoint) :=
  match point, c.failure with
  | .done _, _ => none
  | _, some message => failed st (.unanswered message)
  | point, none => answered env connection userId st point c

end Statements

variable {env : Env} {connection : ConnectionRecord} {userId : String} {st st' : Store} {i : Nat} {point next : SyncPoint}
  {c : SyncChoice}

/-- A statement that is not answered writes nothing. -/
theorem syncStmt_cases (h : syncStmt env connection userId st i point c = some (st', next)) :
    (st' = st ∧ ∃ e, next = .done (.error e)) ∨ answered env connection userId st point c = some (st', next) := by
  unfold syncStmt at h
  split at h
  · cases h
  · cases h
    exact Or.inl ⟨rfl, _, rfl⟩
  · exact Or.inr h

end AdWiki.Integrations
