import AdWiki.Integrations.TodoSync

/-!
# A task with its link and its note

The state that a synchronisation sees falls into cells, one for each external id: the task if its list is fetched, the
link, and the note of the link if it is not in the trash. The unique indexes keep the cells apart, so a statement about
one of them leaves the others: a lemma on `y ≠ x` and one on the cell itself for each statement.

`Cell.Quiet` says that a synchronisation has nothing to do for a cell.
-/

namespace AdWiki.Integrations

/-- The list is selected, and the account has it. -/
def ConnectionRecord.fetches (connection : ConnectionRecord) (graph : Graph) (listId : String) : Bool :=
  connection.selectedListIds.contains listId && graph.lists.rows.any (·.id = listId)

structure Cell where
  task : Option MicrosoftTodoTaskRecord
  link : Option ExternalItemMapping
  note : Option Note

def Store.cell (st : Store) (connection : ConnectionRecord) (x : String) : Cell where
  task := ((st.graph.tasks.find x).filter fun task => connection.fetches st.graph task.listId).map
    GraphTask.toMicrosoftTodoTaskRecord
  link := st.linkOf connection x
  note :=
    (((st.linkOf connection x).filter connection.reads).bind fun mapping => st.notes.find mapping.localResourceId).filter
    fun note => note.deletedAt.isNone

namespace Cell

/-- The link is for this task and this note as they are. -/
def UpToDate (env : Env) (mapping : ExternalItemMapping) (task : MicrosoftTodoTaskRecord) (note : Note) : Prop :=
  mapping.lastLocalHash = some (localHash env note.toNoteText) ∧ mapping.lastExternalHash = some (externalHash env task)

/-- There is nothing to import, to reconcile or to delete. -/
def Quiet (env : Env) (connection : ConnectionRecord) (graph : Graph) (cell : Cell) : Prop :=
  match cell.task, cell.link with
  | none, none => True
  | some task, none => task.id = ""
  | none, some mapping => connection.reads mapping = true → mapping.detachedAt = none → mapping.externalDeletedAt = none →
      (mapping.externalListId.any fun listId => listId != "" && connection.fetches graph listId) = true → cell.note = none
  | some task, some mapping =>
    connection.reads mapping = true → mapping.detachedAt = none → ∀ note, cell.note = some note →
      UpToDate env mapping task note

end Cell

variable {env : Env} {connection : ConnectionRecord} {userId : String} {st st' : Store} {x y : String}
  {mapping other : ExternalItemMapping} {task : MicrosoftTodoTaskRecord} {note : Note}

theorem fetches_congr {graph graph' : Graph} (h : graph'.lists = graph.lists) :
    connection.fetches graph' = connection.fetches graph := by
  funext listId
  simp only [ConnectionRecord.fetches, h]

theorem quiet_congr {graph graph' : Graph} {cell : Cell} (h : graph'.lists = graph.lists) :
    cell.Quiet env connection graph' ↔ cell.Quiet env connection graph := by
  unfold Cell.Quiet
  rw [fetches_congr h]

/-! ## Cells that a statement leaves -/

/-- Two links of one connection that belong to different tasks are different rows. -/
theorem link_id_ne (h : st.linkOf connection x = some mapping) (h' : st.linkOf connection y = some other) (hne : y ≠ x) :
    other.id ≠ mapping.id := by
  intro hid
  obtain ⟨hmem, -, hx⟩ := linkOf_eq_some.mp h
  obtain ⟨hmem', -, hy⟩ := linkOf_eq_some.mp h'
  rw [Rows.eq_of_key st.mappings.unique hmem' hmem hid] at hy
  exact hne (hy.symm.trans hx)

/-- Links that the synchronisation reads have notes of their own. -/
theorem link_note_ne (h : st.linkOf connection x = some mapping) (hreads : connection.reads mapping = true)
    (h' : st.linkOf connection y = some other) (hreads' : connection.reads other = true) (hne : y ≠ x) :
    other.localResourceId ≠ mapping.localResourceId := by
  intro hid
  obtain ⟨hmem, -, hx⟩ := linkOf_eq_some.mp h
  obtain ⟨hmem', -, hy⟩ := linkOf_eq_some.mp h'
  simp only [ConnectionRecord.reads, Bool.and_eq_true, decide_eq_true_eq] at hreads hreads'
  have hkey : other.localKey = mapping.localKey := by
    simp only [ExternalItemMapping.localKey, hreads.1.1, hreads.1.2, hreads'.1.1, hreads'.1.2, hid]
  rw [st.localOnce.eq hmem' hmem hkey rfl] at hy
  exact hne (hy.symm.trans hx)

theorem linkOf_updateMapping {id : String} {f : ExternalItemMapping → ExternalItemMapping} {hid hexternal hlocal} :
    (st.updateMapping id f hid hexternal hlocal).linkOf connection y =
      (st.linkOf connection y).map fun mapping => if mapping.id = id then f mapping else mapping := by
  have hkey : ∀ mapping, (if mapping.id = id then f mapping else mapping).externalKey = mapping.externalKey := by
    intro mapping
    split
    · exact hexternal mapping
    · rfl
  refine Option.ext fun other => ?_
  rw [linkOf_eq_some, Option.map_eq_some_iff]
  constructor
  · rintro ⟨hmem, hconnection, hexternal'⟩
    obtain ⟨mapping, hmapping, heq⟩ := Rows.mem_updateMany.mp hmem
    simp only [decide_eq_true_eq] at heq
    have hsame := hkey mapping
    rw [← heq] at hsame
    simp only [ExternalItemMapping.externalKey, Option.some.injEq, Prod.mk.injEq] at hsame
    exact ⟨mapping,
      linkOf_eq_some.mpr ⟨hmapping, hsame.1.symm.trans hconnection, hsame.2.symm.trans hexternal'⟩, heq.symm⟩
  · rintro ⟨mapping, hlink, rfl⟩
    obtain ⟨hmem, hconnection, hexternal'⟩ := linkOf_eq_some.mp hlink
    have hsame := hkey mapping
    simp only [ExternalItemMapping.externalKey, Option.some.injEq, Prod.mk.injEq] at hsame
    refine ⟨Rows.mem_updateMany.mpr ⟨mapping, hmem, ?_⟩, hsame.1.trans hconnection, hsame.2.trans hexternal'⟩
    simp only [decide_eq_true_eq]

section UpdateMapping

variable {f : ExternalItemMapping → ExternalItemMapping} {hid : ∀ mapping, (f mapping).id = mapping.id}
  {hexternal : ∀ mapping, (f mapping).externalKey = mapping.externalKey}
  {hlocal : ∀ mapping, (f mapping).localKey = mapping.localKey}

theorem cell_updateMapping_ne (h : st.linkOf connection x = some mapping) (hne : y ≠ x) :
    (st.updateMapping mapping.id f hid hexternal hlocal).cell connection y = st.cell connection y := by
  have hlink : (st.updateMapping mapping.id f hid hexternal hlocal).linkOf connection y = st.linkOf connection y := by
    rw [linkOf_updateMapping]
    cases h' : st.linkOf connection y with
    | none => rfl
    | some other => rw [Option.map_some, if_neg (link_id_ne h h' hne)]
  unfold Store.cell
  rw [hlink]
  rfl

theorem cell_updateMapping_self (h : st.linkOf connection x = some mapping)
    (hreads : connection.reads (f mapping) = connection.reads mapping) :
    (st.updateMapping mapping.id f hid hexternal hlocal).cell connection x =
      { st.cell connection x with link := some (f mapping) } := by
  have hlink : (st.updateMapping mapping.id f hid hexternal hlocal).linkOf connection x = some (f mapping) := by
    rw [linkOf_updateMapping, h, Option.map_some, if_pos rfl]
  have hsame : (f mapping).localResourceId = mapping.localResourceId := by
    have := hlocal mapping
    simp only [ExternalItemMapping.localKey, Option.some.injEq, Prod.mk.injEq] at this
    exact this.2.2
  unfold Store.cell
  simp only [hlink, h, Option.filter_some, hreads]
  split
  · simp only [Option.bind_some, hsame]
    rfl
  · rfl

end UpdateMapping

theorem cell_touch_ne {now : Int} (h : st.linkOf connection x = some mapping) (hne : y ≠ x) :
    (touch st mapping now).cell connection y = st.cell connection y := cell_updateMapping_ne h hne

theorem cell_touch_self {now : Int} (h : st.linkOf connection x = some mapping) :
    (touch st mapping now).cell connection x =
      { st.cell connection x with link := some { mapping with lastSyncedAt := now } } := cell_updateMapping_self h rfl

theorem cell_relink_ne {state : LinkState} {now : Int} (h : st.linkOf connection x = some mapping) (hne : y ≠ x) :
    (relink st mapping state now).cell connection y = st.cell connection y := cell_updateMapping_ne h hne

theorem cell_relink_self {state : LinkState} {now : Int} (h : st.linkOf connection x = some mapping) :
    (relink st mapping state now).cell connection x =
      { st.cell connection x with
        link := some { mapping with
          lastLocalHash := some state.lastLocalHash
          lastExternalHash := some state.lastExternalHash
          localUpdatedAt := some state.localUpdatedAt
          externalUpdatedAt := some state.externalUpdatedAt
          externalDeletedAt := none
          lastSyncedAt := now } } := cell_updateMapping_self h rfl

section UpdateNote

variable {f : Note → Note} {hid : ∀ note, (f note).id = note.id}

theorem cell_updateNote_ne (h : st.linkOf connection x = some mapping) (hreads : connection.reads mapping = true)
    (hne : y ≠ x) :
    (st.updateNote mapping.localResourceId f hid).cell connection y = st.cell connection y := by
  have hlink : (st.updateNote mapping.localResourceId f hid).linkOf connection y = st.linkOf connection y := rfl
  unfold Store.cell
  rw [hlink]
  cases h' : st.linkOf connection y with
  | none => rfl
  | some other =>
    rw [Option.filter_some]
    split
    · next hreads' =>
      have hnotes : (st.updateNote mapping.localResourceId f hid).notes.find other.localResourceId =
          st.notes.find other.localResourceId := by
        rw [Store.updateNote, Table.find_updateMany]
        cases hfind : st.notes.find other.localResourceId with
        | none => rfl
        | some note =>
          have hnote := (Table.find_eq_some.mp hfind).2
          have hother : note.id ≠ mapping.localResourceId := hnote ▸ link_note_ne h hreads h' hreads' hne
          rw [Option.map_some, if_neg (by simpa using hother)]
      simp only [Option.bind_some, hnotes]
      rfl
    · rfl

theorem cell_updateNote_self (h : st.linkOf connection x = some mapping) (hreads : connection.reads mapping = true)
    (hnote : st.notes.find mapping.localResourceId = some note) :
    (st.updateNote mapping.localResourceId f hid).cell connection x =
      { st.cell connection x with note := (some (f note)).filter fun note => note.deletedAt.isNone } := by
  have hlink : (st.updateNote mapping.localResourceId f hid).linkOf connection x = some mapping := h
  have hfind : (st.updateNote mapping.localResourceId f hid).notes.find mapping.localResourceId = some (f note) := by
    rw [Store.updateNote, Table.find_updateMany, hnote, Option.map_some, if_pos]
    exact decide_eq_true (Table.find_eq_some.mp hnote).2
  unfold Store.cell
  simp only [hlink, h, Option.filter_some, hreads, if_true, Option.bind_some, hfind]
  rfl

end UpdateNote

theorem cell_overwriteNote_ne {now : Int} (h : st.linkOf connection x = some mapping)
    (hreads : connection.reads mapping = true)
    (hne : y ≠ x) : (overwriteNote st mapping.localResourceId task now).cell connection y = st.cell connection y :=
  cell_updateNote_ne h hreads hne

theorem cell_overwriteNote_self {now : Int} (h : st.linkOf connection x = some mapping)
    (hreads : connection.reads mapping = true) (hnote : st.notes.find mapping.localResourceId = some note)
    (hactive : note.deletedAt = none) :
    (overwriteNote st mapping.localResourceId task now).cell connection x =
      { st.cell connection x with note := some { note with toNoteText := noteOfTask task, updatedAt := now } } := by
  refine (cell_updateNote_self h hreads hnote).trans ?_
  rw [Option.filter_some, if_pos (Option.isNone_iff_eq_none.mpr hactive)]

/-- The note first, then the link. -/
theorem cell_trashNote_ne {now : Int} (h : st.linkOf connection x = some mapping)
    (hreads : connection.reads mapping = true)
    (hne : y ≠ x) :
    (trashNote st mapping mapping.localResourceId userId now).cell connection y = st.cell connection y := by
  have hlink : (discardNote st mapping.localResourceId userId now).linkOf connection x = some mapping := h
  have hnote : (discardNote st mapping.localResourceId userId now).cell connection y = st.cell connection y :=
    cell_updateNote_ne h hreads hne
  exact (cell_updateMapping_ne hlink hne).trans hnote

theorem cell_trashNote_link {now : Int} (h : st.linkOf connection x = some mapping) :
    ((trashNote st mapping mapping.localResourceId userId now).cell connection x).link =
      some { mapping with externalDeletedAt := some now, lastSyncedAt := now } := by
  have hlink : (discardNote st mapping.localResourceId userId now).linkOf connection x = some mapping := h
  refine linkOf_updateMapping.trans ?_
  rw [hlink, Option.map_some, if_pos rfl]

section UpdateTask

variable {f : GraphTask → GraphTask} {hid : ∀ task, (f task).id = task.id} {stored : GraphTask}

theorem cell_updateTask_ne (hne : y ≠ x) : (st.updateTask x f hid).cell connection y = st.cell connection y := by
  have hfind : (st.updateTask x f hid).graph.tasks.find y = st.graph.tasks.find y := by
    rw [Store.updateTask, Table.find_updateMany]
    cases h : st.graph.tasks.find y with
    | none => rfl
    | some task =>
      have htask := (Table.find_eq_some.mp h).2
      have hother : task.id ≠ x := fun hx => hne (htask.symm.trans hx)
      rw [Option.map_some, if_neg (by simpa using hother)]
  unfold Store.cell
  rw [hfind]
  rfl

theorem cell_updateTask_self (h : st.graph.tasks.find x = some stored) (hlist : (f stored).listId = stored.listId)
    (hfetches : connection.fetches st.graph stored.listId = true) :
    (st.updateTask x f hid).cell connection x =
      { st.cell connection x with task := some (f stored).toMicrosoftTodoTaskRecord } := by
  have hfind : (st.updateTask x f hid).graph.tasks.find x = some (f stored) := by
    rw [Store.updateTask, Table.find_updateMany, h, Option.map_some, if_pos]
    exact decide_eq_true (Table.find_eq_some.mp h).2
  have hsame : connection.fetches (st.updateTask x f hid).graph (f stored).listId = true := by
    rw [hlist]
    exact hfetches
  unfold Store.cell
  simp only [hfind, Option.filter_some, hsame, if_true, Option.map_some]
  rfl

end UpdateTask

theorem cell_overwriteTask_ne {lastModifiedDateTime : Option String} (hne : y ≠ x) :
    (overwriteTask st x note lastModifiedDateTime).cell connection y = st.cell connection y := cell_updateTask_ne hne

theorem cell_overwriteTask_self {lastModifiedDateTime : Option String} {stored : GraphTask}
    (h : st.graph.tasks.find x = some stored) (hfetches : connection.fetches st.graph stored.listId = true) :
    (overwriteTask st x note lastModifiedDateTime).cell connection x =
      { st.cell connection x with
        task := some (taskOfNote note lastModifiedDateTime stored).toMicrosoftTodoTaskRecord } :=
  cell_updateTask_self h rfl hfetches

/-! ## Imported tasks -/

/-- `st'` is `st` with one more note and one more link. -/
structure Inserted (st st' : Store) (note : Note) (mapping : ExternalItemMapping) : Prop where
  notes : ∀ n, n ∈ st'.notes ↔ n ∈ st.notes ∨ n = note
  mappings : ∀ m, m ∈ st'.mappings ↔ m ∈ st.mappings ∨ m = mapping
  graph : st'.graph = st.graph

theorem createNote_isSome (h : (st.notes.find note.id).isNone = true) : ∃ st', st.createNote note = some st' ∧
    (∀ n, n ∈ st'.notes ↔ n ∈ st.notes ∨ n = note) ∧ st'.mappings = st.mappings ∧ st'.graph = st.graph := by
  have hnew : ∀ a ∈ st.notes, ∀ b ∈ [note], a.id ≠ b.id := by
    intro a ha b hb
    rw [List.mem_singleton.mp hb]
    exact Table.find_eq_none.mp (Option.isNone_iff_eq_none.mp h) a ha
  obtain ⟨notes, hnotes⟩ := Table.createMany_isSome (l := [note]) (List.nodup_singleton _) hnew
  refine ⟨{ st with notes := notes }, ?_, fun n => ?_, rfl, rfl⟩
  · unfold Store.createNote
    rw [hnotes]
  · rw [← List.mem_singleton (a := n)]
    exact Table.mem_createMany hnotes

theorem createMapping_isSome (hid : (st.mappings.find mapping.id).isNone = true)
    (hkeys : ∀ other ∈ st.mappings, other.externalKey ≠ mapping.externalKey ∧ other.localKey ≠ mapping.localKey) :
    ∃ st', st.createMapping mapping = some st' ∧ (∀ m, m ∈ st'.mappings ↔ m ∈ st.mappings ∨ m = mapping) ∧
      st'.notes = st.notes ∧ st'.graph = st.graph := by
  have hnew : ∀ a ∈ st.mappings, ∀ b ∈ [mapping], a.id ≠ b.id := by
    intro a ha b hb
    rw [List.mem_singleton.mp hb]
    exact Table.find_eq_none.mp (Option.isNone_iff_eq_none.mp hid) a ha
  obtain ⟨mappings, hmappings⟩ := Table.createMany_isSome (l := [mapping]) (List.nodup_singleton _) hnew
  have hfree : ∀ other ∈ st.mappings.rows, other.externalKey ≠ mapping.externalKey ∧
    other.localKey ≠ mapping.localKey := hkeys
  unfold Store.createMapping
  rw [dif_pos hfree]
  split
  · next hnone =>
    rw [hmappings] at hnone
    cases hnone
  · next mappings' hsome =>
    refine ⟨_, rfl, fun m => ?_, rfl, rfl⟩
    rw [← List.mem_singleton (a := m)]
    exact Table.mem_createMany hsome

variable {fetched : FetchedTask} {c : SyncChoice}

/-- A task without a link gets a note and a link. -/
theorem importTask_new (env : Env) (userId : String) (hlink : st.linkOf connection fetched.task.id = none)
    (hfresh : freshIds st c = true) :
    ∃ st', importTask env connection userId st fetched c = (st', .imported) ∧
      Inserted st st' (importedNote userId fetched.task c) (importedMapping env connection userId fetched c) := by
  simp only [freshIds, Bool.and_eq_true, List.all_eq_true, bne_iff_ne] at hfresh
  have hnoteId : (st.notes.find (importedNote userId fetched.task c).id).isNone = true := hfresh.1.1
  obtain ⟨st₁, hnote, hnotes, hmappings, hgraph⟩ := createNote_isSome hnoteId
  have hkeys : ∀ other ∈ st₁.mappings,
      other.externalKey ≠ (importedMapping env connection userId fetched c).externalKey ∧
        other.localKey ≠ (importedMapping env connection userId fetched c).localKey := by
    rw [hmappings]
    intro other hother
    constructor
    · intro hkey
      simp only [ExternalItemMapping.externalKey, Option.some.injEq, Prod.mk.injEq] at hkey
      exact linkOf_eq_none.mp hlink other hother hkey.1 hkey.2
    · intro hkey
      simp only [ExternalItemMapping.localKey, Option.some.injEq, Prod.mk.injEq] at hkey
      exact hfresh.2 other hother hkey.2.2
  have hid : (st₁.mappings.find (importedMapping env connection userId fetched c).id).isNone = true := by
    rw [hmappings]
    exact hfresh.1.2
  obtain ⟨st', hmapping, hmappings', hnotes', hgraph'⟩ := createMapping_isSome hid hkeys
  refine ⟨st', ?_, ?_, ?_, hgraph'.trans hgraph⟩
  · simp only [importTask, hlink, hnote, Option.bind_some, hmapping]
  · rw [hnotes']
    exact hnotes
  · rw [← hmappings]
    exact hmappings'

variable {inserted : ExternalItemMapping}

theorem linkOf_inserted_ne (h : Inserted st st' note inserted) (hne : y ≠ inserted.externalId) :
    st'.linkOf connection y = st.linkOf connection y := by
  refine Option.ext fun other => ?_
  rw [linkOf_eq_some, linkOf_eq_some, h.mappings]
  constructor
  · rintro ⟨hmem | rfl, hconnection, hy⟩
    · exact ⟨hmem, hconnection, hy⟩
    · exact absurd hy.symm hne
  · rintro ⟨hmem, hconnection, hy⟩
    exact ⟨Or.inl hmem, hconnection, hy⟩

/-- The other links have their own notes, which are as they were. -/
theorem cell_inserted_ne (h : Inserted st st' note inserted) (hne : y ≠ inserted.externalId)
    (hown : ∀ other ∈ st.mappings, other.localResourceId ≠ note.id) : st'.cell connection y = st.cell connection y := by
  unfold Store.cell
  rw [linkOf_inserted_ne h hne, h.graph]
  cases h' : st.linkOf connection y with
  | none => rfl
  | some other =>
    have hfind : st'.notes.find other.localResourceId = st.notes.find other.localResourceId := by
      refine Option.ext fun n => ?_
      rw [Table.find_eq_some, Table.find_eq_some, h.notes]
      constructor
      · rintro ⟨hmem | rfl, hid⟩
        · exact ⟨hmem, hid⟩
        · exact absurd hid.symm (hown other (linkOf_eq_some.mp h').1)
      · rintro ⟨hmem, hid⟩
        exact ⟨Or.inl hmem, hid⟩
    rw [Option.filter_some]
    split
    · simp only [Option.bind_some, hfind]
    · rfl

theorem cell_inserted_self (h : Inserted st st' note inserted) (hconnection : inserted.connectionId = connection.id)
    (hreads : connection.reads inserted = true) (hnote : inserted.localResourceId = note.id)
    (hactive : note.deletedAt = none) :
    st'.cell connection inserted.externalId =
      { st.cell connection inserted.externalId with link := some inserted, note := some note } := by
  have hlink : st'.linkOf connection inserted.externalId = some inserted :=
    linkOf_eq_some.mpr ⟨(h.mappings inserted).mpr (Or.inr rfl), hconnection, rfl⟩
  have hfind : st'.notes.find inserted.localResourceId = some note :=
    Table.find_eq_some.mpr ⟨(h.notes note).mpr (Or.inr rfl), hnote.symm⟩
  unfold Store.cell
  simp only [hlink, h.graph, Option.filter_some, hreads, if_true, Option.bind_some, hfind, hactive, Option.isNone_none]

/-- Nothing is to be done for any task, link or note. -/
def Settled (env : Env) (connection : ConnectionRecord) (st : Store) : Prop :=
  ∀ x, (st.cell connection x).Quiet env connection st.graph

end AdWiki.Integrations
