import AdWiki.Integrations.Texts
import AdWiki.Lib.Table

/-!
# Notes, their links and the tasks of a Microsoft account

A link (`ExternalItemMapping`) belongs to a connection and joins a note to a task. In one connection a task has at most
one link, and a local resource too. Graph is the lists and the tasks of the account, a task in one list; what is written
there is returned unchanged.
-/

namespace AdWiki.Integrations

inductive NoteStatus
  | captured
  | promoted
  | archived
  deriving DecidableEq, Repr

inductive ExternalItemSyncDirection
  | import
  | export
  deriving DecidableEq, Repr

structure Note extends NoteText where
  id : String
  ownerId : String
  status : NoteStatus
  mcpVisible : Bool
  deletedAt : Option Int
  deletedById : Option String
  updatedAt : Int
  deriving DecidableEq, Repr

structure ExternalItemMapping where
  id : String
  connectionId : String
  externalId : String
  externalListId : Option String
  localResourceType : String
  localResourceId : String
  direction : ExternalItemSyncDirection
  lastLocalHash : Option String
  lastExternalHash : Option String
  localUpdatedAt : Option Int
  externalUpdatedAt : Option Int
  detachedAt : Option Int
  externalDeletedAt : Option Int
  lastSyncedAt : Int
  deriving DecidableEq, Repr

structure MicrosoftTodoListRecord where
  id : String
  displayName : String
  deriving DecidableEq, Repr

structure GraphTask extends MicrosoftTodoTaskRecord where
  listId : String
  deriving DecidableEq, Repr

structure Graph where
  lists : Table MicrosoftTodoListRecord.id
  tasks : Table fun task : GraphTask => task.id

/-- The part of the connection that the synchronisation reads. -/
structure ConnectionRecord where
  id : String
  selectedListIds : List String
  deriving DecidableEq, Repr

namespace ExternalItemMapping

/-- `@@unique([connectionId, externalId])` -/
def externalKey (mapping : ExternalItemMapping) : Option (String × String) :=
  some (mapping.connectionId, mapping.externalId)

/-- `@@unique([connectionId, localResourceType, localResourceId])` -/
def localKey (mapping : ExternalItemMapping) : Option (String × String × String) :=
  some (mapping.connectionId, mapping.localResourceType, mapping.localResourceId)

end ExternalItemMapping

structure Store where
  notes : Table fun note : Note => note.id
  mappings : Table ExternalItemMapping.id
  graph : Graph
  externalOnce : mappings.UniqueOn ExternalItemMapping.externalKey
  localOnce : mappings.UniqueOn ExternalItemMapping.localKey

namespace Store

/-- The link of a task. -/
def linkOf (st : Store) (connection : ConnectionRecord) (externalId : String) : Option ExternalItemMapping :=
  st.mappings.rows.find? fun mapping => mapping.connectionId = connection.id && mapping.externalId = externalId

def createNote (st : Store) (note : Note) : Option Store :=
  match st.notes.createMany [note] with
  | none => none
  | some notes => some { st with notes := notes }

/-- The row is refused where it violates a unique index. -/
def createMapping (st : Store) (mapping : ExternalItemMapping) : Option Store :=
  if hfree : ∀ other ∈ st.mappings.rows, other.externalKey ≠ mapping.externalKey ∧ other.localKey ≠ mapping.localKey then
    match hmappings : st.mappings.createMany [mapping] with
    | none => none
    | some mappings =>
      some { st with
        mappings := mappings
        externalOnce :=
          st.externalOnce.createMany (fun other hmem _ hkey hother => (hfree other hmem).1 (hother.trans hkey.symm))
          hmappings
        localOnce :=
          st.localOnce.createMany (fun other hmem _ hkey hother => (hfree other hmem).2 (hother.trans hkey.symm))
          hmappings }
  else none

def updateNote (st : Store) (id : String) (f : Note → Note) (hid : ∀ note, (f note).id = note.id) : Store :=
  { st with notes := st.notes.updateMany (·.id = id) f hid }

/-- An update of columns that are in no unique index. -/
def updateMapping (st : Store) (id : String) (f : ExternalItemMapping → ExternalItemMapping)
    (hid : ∀ mapping, (f mapping).id = mapping.id) (hexternal : ∀ mapping, (f mapping).externalKey = mapping.externalKey)
    (hlocal : ∀ mapping, (f mapping).localKey = mapping.localKey) : Store :=
  { st with
    mappings := st.mappings.updateMany (·.id = id) f hid
    externalOnce := st.externalOnce.updateMany hexternal
    localOnce := st.localOnce.updateMany hlocal }

def updateTask (st : Store) (id : String) (f : GraphTask → GraphTask) (hid : ∀ task, (f task).id = task.id) : Store :=
  { st with graph := { st.graph with tasks := st.graph.tasks.updateMany (·.id = id) f hid } }

end Store

variable {st st' : Store} {connection : ConnectionRecord} {x : String} {mapping : ExternalItemMapping} {note : Note}

theorem linkOf_eq_some : st.linkOf connection x = some mapping ↔
    mapping ∈ st.mappings ∧ mapping.connectionId = connection.id ∧ mapping.externalId = x := by
  constructor
  · intro h
    have hkey := List.find?_some h
    simp only [Bool.and_eq_true, decide_eq_true_eq] at hkey
    exact ⟨List.mem_of_find?_eq_some h, hkey⟩
  · rintro ⟨hmem, hconnection, hexternal⟩
    cases hfind : st.linkOf connection x with
    | none =>
      have hnone := List.find?_eq_none.mp hfind mapping hmem
      simp [hconnection, hexternal] at hnone
    | some other =>
      have hkey := List.find?_some hfind
      simp only [Bool.and_eq_true, decide_eq_true_eq] at hkey
      have hsame : other.externalKey = mapping.externalKey := by
        simp only [ExternalItemMapping.externalKey, hkey.1, hkey.2, hconnection, hexternal]
      exact congrArg some (st.externalOnce.eq (List.mem_of_find?_eq_some hfind) hmem hsame rfl)

theorem linkOf_eq_none : st.linkOf connection x = none ↔
    ∀ mapping ∈ st.mappings, mapping.connectionId = connection.id → mapping.externalId ≠ x := by
  simp only [Store.linkOf, List.find?_eq_none, Bool.and_eq_true, decide_eq_true_eq, not_and]
  rfl

end AdWiki.Integrations
