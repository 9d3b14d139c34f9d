import AdWiki.Integrations.SyncLoops

/-!
# A second synchronisation has nothing to do

A successful synchronisation leaves every cell quiet (`settled_sync`), and from such a state a synchronisation changes
nothing but the time of the last one (`sameContent_sync`).

* `todo_sync`: both together; and no run deletes the note of a task that it has fetched.
-/

namespace AdWiki.Integrations

variable {env : Env} {connection : ConnectionRecord} {userId : String} {st st' : Store} {point next : SyncPoint}
  {c : SyncChoice}
  {run : SyncRun} {x y : String} {mapping : ExternalItemMapping} {task : MicrosoftTodoTaskRecord} {note : Note}
  {fetch : Fetch} {lists : List MicrosoftTodoListRecord} {selected : List String} {fetched : FetchedTask}
  {todo : List FetchedTask} {links : List ExternalItemMapping}

/-! ## Fetching -/

theorem pointInv_listLoop (h : FetchInv connection st fetch selected)
    (hlists : ∀ listId, lists.any (·.id = listId) = true ↔ Listed st listId) :
    PointInv env connection st (listLoop lists fetch selected) := by
  induction selected generalizing fetch with
  | nil => exact h
  | cons listId selected ih =>
    unfold listLoop
    split
    · next hlisted => exact ⟨h, (hlists listId).mp hlisted, hlists⟩
    · next hunlisted =>
      refine ih ⟨fun other => ?_, h.tasks⟩
      rw [h.lists, List.mem_cons]
      constructor
      · rintro (hfetched | ⟨rfl | hselected, hlisted⟩)
        · exact Or.inl hfetched
        · exact absurd ((hlists _).mpr hlisted) hunlisted
        · exact Or.inr ⟨hselected, hlisted⟩
      · rintro (hfetched | ⟨hselected, hlisted⟩)
        · exact Or.inl hfetched
        · exact Or.inr ⟨Or.inr hselected, hlisted⟩

/-- The tasks of one more list. -/
theorem fetchInv_setTasks {listId : String} {order : RowOrder} (h : FetchInv connection st fetch (listId :: selected))
    (hlisted : Listed st listId) :
    FetchInv connection st (setTasks fetch listId (st.graph.tasks.findMany order fun task => task.listId = listId))
      selected := by
  refine ⟨fun other => ?_, fun x fetched => ?_⟩
  · rw [h.lists]
    simp only [setTasks, List.mem_cons]
    constructor
    · rintro (hfetched | ⟨rfl | hselected, hother⟩)
      · exact Or.inl (Or.inr hfetched)
      · exact Or.inl (Or.inl rfl)
      · exact Or.inr ⟨hselected, hother⟩
    · rintro ((rfl | hfetched) | ⟨hselected, hother⟩)
      · exact Or.inr ⟨Or.inl rfl, hlisted⟩
      · exact Or.inl hfetched
      · exact Or.inr ⟨Or.inr hselected, hother⟩
  · have hnodup : (((st.graph.tasks.findMany order fun task => task.listId = listId).map fun task =>
        (task.id, (⟨listId, task.toMicrosoftTodoTaskRecord⟩ : FetchedTask))).map Prod.fst).Nodup := by
      rw [List.map_map]
      exact Table.nodup_findMany
    have hlist : ∀ fetched, ((st.graph.tasks.findMany order fun task => task.listId = listId).map fun task =>
        (task.id, (⟨listId, task.toMicrosoftTodoTaskRecord⟩ : FetchedTask))).reverse.lookup x = some fetched ↔
          ∃ task, st.graph.tasks.find x = some task ∧ task.listId = listId ∧
            fetched = ⟨task.listId, task.toMicrosoftTodoTaskRecord⟩ := by
      intro fetched
      rw [OrderedMap.lookup_reverse hnodup, List.mem_map]
      simp only [Table.mem_findMany, decide_eq_true_eq, Prod.mk.injEq, Table.find_eq_some]
      constructor
      · rintro ⟨task, ⟨hmem, rfl⟩, hid, rfl⟩
        exact ⟨task, ⟨hmem, hid⟩, rfl, rfl⟩
      · rintro ⟨task, ⟨hmem, hid⟩, rfl, rfl⟩
        exact ⟨task, ⟨hmem, rfl⟩, hid, rfl⟩
    simp only [setTasks]
    rw [OrderedMap.get?_setAll, Option.or_eq_some_iff, hlist, h.tasks]
    constructor
    · rintro (⟨task, hfind, hid, rfl⟩ | ⟨-, task, hfind, hmem, rfl⟩)
      · exact ⟨task, hfind, hid ▸ List.mem_cons_self, rfl⟩
      · exact ⟨task, hfind, List.mem_cons_of_mem _ hmem, rfl⟩
    · rintro ⟨task, hfind, hmem, rfl⟩
      by_cases hid : task.listId = listId
      · exact Or.inl ⟨task, hfind, hid, rfl⟩
      · refine Or.inr ⟨?_, task, hfind, (List.mem_cons.mp hmem).resolve_left hid, rfl⟩
        rw [Option.eq_none_iff_forall_ne_some]
        intro fetched hlookup
        obtain ⟨task', hfind', hid', -⟩ := (hlist fetched).mp hlookup
        rw [hfind] at hfind'
        cases hfind'
        exact hid hid'

/-- The task of a cell, once the lists have been fetched. -/
theorem cell_task_of_fetchInv (h : FetchInv connection st fetch []) : (st.cell connection x).task =
    (fetch.tasksByExternalId.get? x).map FetchedTask.task := by
  have hlists : ∀ listId, connection.fetches st.graph listId = true ↔ listId ∈ fetch.fetchedListIds := by
    intro listId
    rw [h.lists]
    simp
  refine Option.ext fun task => ?_
  simp only [Store.cell, Option.map_eq_some_iff, Option.filter_eq_some_iff, h.tasks, hlists]
  constructor
  · rintro ⟨stored, ⟨hfind, hmem⟩, rfl⟩
    exact ⟨_, ⟨stored, hfind, hmem, rfl⟩, rfl⟩
  · rintro ⟨_, ⟨stored, hfind, hmem, rfl⟩, rfl⟩
    exact ⟨stored, ⟨hfind, hmem⟩, rfl⟩

theorem fetched_id (h : FetchInv connection st fetch []) (hget : fetch.tasksByExternalId.get? x = some fetched) :
    fetched.task.id = x := by
  obtain ⟨stored, hfind, -, rfl⟩ := (h.tasks x fetched).mp hget
  exact (Table.find_eq_some.mp hfind).2

/-- The loops begin with all tasks and all links. -/
theorem loopInv_init {order : RowOrder} {counts : SyncCounts} (h : FetchInv connection st fetch [])
    (hrun : run = ⟨st.mappings.findMany order connection.reads, fetch.fetchedListIds, [], counts⟩) :
    LoopInv env connection st run fetch.tasksByExternalId.values run.mappings none := by
  have hmappings : ∀ mapping, mapping ∈ run.mappings ↔ mapping ∈ st.mappings ∧ connection.reads mapping = true := by
    intro mapping
    rw [hrun]
    exact Table.mem_findMany
  have hconnection : ∀ mapping, connection.reads mapping = true → mapping.connectionId = connection.id := by
    intro mapping hreads
    simp only [ConnectionRecord.reads, Bool.and_eq_true, decide_eq_true_eq] at hreads
    exact hreads.1.1
  have hlink : ∀ mapping ∈ run.mappings, (st.cell connection mapping.externalId).link = some mapping := by
    intro mapping hmapping
    obtain ⟨hmem, hreads⟩ := (hmappings mapping).mp hmapping
    exact linkOf_eq_some.mpr ⟨hmem, hconnection mapping hreads, rfl⟩
  have hlinkOnce : (run.mappings.map ExternalItemMapping.externalId).Nodup := by
    have hrows : run.mappings.Nodup := by
      rw [hrun]
      exact List.Nodup.of_map _ Table.nodup_findMany
    refine hrows.map_on fun a ha b hb hid => ?_
    have hab := hlink b hb
    rw [← hid, hlink a ha] at hab
    exact Option.some.inj hab
  have hvalues : ∀ fetched, fetched ∈ fetch.tasksByExternalId.values ↔
      fetch.tasksByExternalId.get? fetched.task.id = some fetched := by
    intro fetched
    rw [OrderedMap.mem_values]
    constructor
    · rintro ⟨x, hget⟩
      rw [fetched_id h hget]
      exact hget
    · exact fun hget => ⟨_, hget⟩
  have hprocessed : run.processedMappings = [] := by rw [hrun]
  refine
    { task := ?_, known := ?_, unknown := ?_, link := fun mapping hmapping _ => hlink mapping hmapping
      read := fun mapping hmapping => ⟨hmapping, ((hmappings mapping).mp hmapping).2⟩
      passed := ?_, lists := ?_, taskOnce := ?_, linkOnce := hlinkOnce, aside := fun _ h => (by cases h), quiet := ?_ }
  · intro fetched hfetched
    rw [cell_task_of_fetchInv h, (hvalues fetched).mp hfetched]
    rfl
  · intro fetched _ mapping hsome
    obtain ⟨hmapping, hid⟩ := (mappingOf_eq_some hlinkOnce).mp hsome
    rw [← hid]
    exact hlink mapping hmapping
  · intro fetched _ hnone mapping hsome
    rw [Bool.eq_false_iff]
    intro hreads
    obtain ⟨hmem, -, hid⟩ := linkOf_eq_some.mp hsome
    rw [(mappingOf_eq_some hlinkOnce).mpr ⟨(hmappings mapping).mpr ⟨hmem, hreads⟩, hid⟩] at hnone
    cases hnone
  · intro x hsome
    rw [cell_task_of_fetchInv h] at hsome
    obtain ⟨fetched, hget⟩ := Option.isSome_iff_exists.mp (Option.isSome_map ▸ hsome)
    exact Or.inl ⟨fetched, OrderedMap.mem_values.mpr ⟨x, hget⟩, fetched_id h hget⟩
  · intro listId
    rw [hrun, Bool.eq_iff_iff, List.contains_iff_mem, h.lists]
    simp
  · have hkeys : fetch.tasksByExternalId.values.map (fun fetched => fetched.task.id) =
        fetch.tasksByExternalId.entries.map Prod.fst := by
      rw [OrderedMap.values, List.map_map]
      refine List.map_congr_left fun entry hentry => ?_
      exact fetched_id h (OrderedMap.get?_eq_some.mpr hentry)
    rw [hkeys]
    exact fetch.tasksByExternalId.nodup
  · intro x _
    cases hget : fetch.tasksByExternalId.get? x with
    | some fetched => exact Or.inr (Or.inl ⟨fetched, OrderedMap.mem_values.mpr ⟨x, hget⟩, fetched_id h hget⟩)
    | none =>
      have htask : (st.cell connection x).task = none := by
        rw [cell_task_of_fetchInv h, hget]
        rfl
      cases hcell : (st.cell connection x).link with
      | none =>
        left
        unfold Cell.Quiet
        rw [htask, hcell]
        trivial
      | some mapping =>
        obtain ⟨hmem, -, hid⟩ := linkOf_eq_some.mp hcell
        by_cases hreads : connection.reads mapping = true
        · refine Or.inr (Or.inr ⟨mapping, (hmappings mapping).mpr ⟨hmem, hreads⟩, ?_, hid⟩)
          rw [hprocessed]
          exact List.not_mem_nil
        · left
          unfold Cell.Quiet
          rw [htask, hcell]
          exact fun h => absurd h hreads

/-! ## One statement -/

theorem cell_note (hlink : (st.cell connection x).link = some mapping) (hreads : connection.reads mapping = true) :
    (st.cell connection x).note = (st.notes.find mapping.localResourceId).filter fun note => note.deletedAt.isNone := by
  have hlink : st.linkOf connection x = some mapping := hlink
  simp only [Store.cell, hlink, Option.filter_some, hreads, if_true, Option.bind_some]

theorem Met.quiet (h : Met connection st mapping task)
    (hnote : ∀ note, (st.cell connection mapping.externalId).note = some note → Cell.UpToDate env mapping task note) :
    (st.cell connection mapping.externalId).Quiet env connection st.graph := by
  unfold Cell.Quiet
  rw [h.task, h.link]
  exact fun _ _ => hnote

theorem Missed.quiet (h : Missed connection st mapping) (hnote : (st.cell connection mapping.externalId).note = none) :
    (st.cell connection mapping.externalId).Quiet env connection st.graph := by
  unfold Cell.Quiet
  rw [h.task, h.link]
  exact fun _ _ _ _ => hnote

theorem pointInv_importTask {outcome : Outcome}
    (h : LoopInv env connection st run todo run.mappings (some fetched.task.id))
    (hunknown : ∀ mapping, (st.cell connection fetched.task.id).link = some mapping → connection.reads mapping = false)
    (htask : (st.cell connection fetched.task.id).task = some fetched.task) (hfresh : freshIds st c = true)
    (himport : importTask env connection userId st fetched c = (st', outcome)) :
    PointInv env connection st' (taskLoop (run.add outcome) todo) := by
  cases hlink : st.linkOf connection fetched.task.id with
  | some existing =>
    simp only [importTask, hlink, Prod.mk.injEq] at himport
    obtain ⟨rfl, rfl⟩ := himport
    refine pointInv_taskLoop (((h.frame (fun y hne => cell_touch_ne hlink hne) ?_ rfl).settle ?_).add _)
    · rw [cell_touch_self hlink]
    · unfold Cell.Quiet
      rw [cell_touch_self hlink, htask]
      exact fun hreads => absurd hreads (Bool.eq_false_iff.mp (hunknown existing hlink))
  | none =>
    obtain ⟨st₁, hnew, hinserted⟩ := importTask_new env userId hlink hfresh
    rw [hnew] at himport
    cases himport
    have hown : ∀ other ∈ st.mappings, other.localResourceId ≠ (importedNote userId fetched.task c).id := by
      simp only [freshIds, Bool.and_eq_true, List.all_eq_true, bne_iff_ne] at hfresh
      exact hfresh.2
    have hcellTask : (st'.cell connection fetched.task.id).task = (st.cell connection fetched.task.id).task := by
      simp only [Store.cell, hinserted.graph]
    refine pointInv_taskLoop
      (((h.frame (fun y hne => cell_inserted_ne hinserted hne hown) ?_ (by rw [hinserted.graph])).settle
      ?_).add _)
    · rw [hcellTask]
    · have hlink' : (st'.cell connection fetched.task.id).link = some (importedMapping env connection userId fetched c) :=
        linkOf_eq_some.mpr ⟨(hinserted.mappings _).mpr (Or.inr rfl), rfl, rfl⟩
      unfold Cell.Quiet
      rw [hcellTask, htask, hlink']
      intro hreads _ note hnote
      have hself := cell_inserted_self hinserted rfl hreads rfl rfl
      have hnote' := congrArg Cell.note hself
      rw [show (importedMapping env connection userId fetched c).externalId = fetched.task.id from rfl, hnote] at hnote'
      cases hnote'
      exact ⟨rfl, rfl⟩

/-- The cell at hand is as it was, but for its link. -/
theorem pointInv_updateMapping {state : Option LinkState} {outcome : Outcome}
    (h : PointInv env connection st (.updateMapping run mapping state outcome todo)) :
    PointInv env connection (writeLink st mapping state c.now) (taskLoop (run.add outcome) todo) := by
  obtain ⟨hloop, task, hmet, note, hnote, hstate⟩ := h
  have hlink : st.linkOf connection mapping.externalId = some mapping := hmet.link
  cases state with
  | none =>
    simp only [writeLink]
    refine pointInv_taskLoop (((hloop.frame (fun y hne => cell_touch_ne hlink hne) ?_ rfl).settle ?_).add _)
    · rw [cell_touch_self hlink]
    · unfold Cell.Quiet
      rw [cell_touch_self hlink, hmet.task]
      intro _ _ other hother
      rw [hnote] at hother
      cases hother
      exact hstate
  | some state =>
    simp only [writeLink]
    refine pointInv_taskLoop (((hloop.frame (fun y hne => cell_relink_ne hlink hne) ?_ rfl).settle ?_).add _)
    · rw [cell_relink_self hlink]
    · unfold Cell.Quiet
      rw [cell_relink_self hlink, hmet.task]
      intro _ _ other hother
      rw [hnote] at hother
      cases hother
      exact ⟨congrArg some hstate.1, congrArg some hstate.2⟩

theorem pointInv_reconcile {now : Int}
    (hloop : LoopInv env connection st run todo run.mappings (some mapping.externalId))
    (hmet : Met connection st mapping task)
    (hnote : (st.cell connection mapping.externalId).note = some note) :
    PointInv env connection st (reconcile env run mapping task note todo now) := by
  unfold reconcile
  simp only
  split
  · exact ⟨hloop, task, hmet, note, hnote, rfl, rfl⟩
  · split
    · next hsame =>
      simp only [Bool.and_eq_true, Bool.not_eq_true', bne_eq_false_iff_eq] at hsame
      exact ⟨hloop, task, hmet, note, hnote, hsame⟩
    · split
      · exact ⟨hloop, hmet, note, hnote⟩
      · exact ⟨hloop, hmet, hnote⟩

/-- The task gives its text to the note. -/
theorem pointInv_updateNote {updatedAt : Int}
    (h : PointInv env connection st (.updateNote run mapping task updatedAt todo))
    (hnext : answered env connection userId st (.updateNote run mapping task updatedAt todo) c = some (st', next)) :
    PointInv env connection st' next := by
  obtain ⟨hloop, hmet, note, hnote⟩ := h
  rw [cell_note hmet.link hmet.reads, Option.filter_eq_some_iff, Option.isNone_iff_eq_none] at hnote
  obtain ⟨hfind, hactive⟩ := hnote
  simp only [answered, hfind, Option.some.injEq, Prod.mk.injEq] at hnext
  obtain ⟨rfl, rfl⟩ := hnext
  have hself : (overwriteNote st mapping.localResourceId task c.now).cell connection mapping.externalId =
      { st.cell connection mapping.externalId with
        note := some { note with toNoteText := noteOfTask task, updatedAt := c.now } } :=
    cell_overwriteNote_self hmet.link hmet.reads hfind hactive
  refine ⟨hloop.frame (fun y hne => cell_overwriteNote_ne hmet.link hmet.reads hne) ?_ rfl, task, ?_,
    { note with toNoteText := noteOfTask task, updatedAt := c.now }, ?_, rfl, rfl⟩
  · rw [hself]
  · exact ⟨hmet.sameId, by rw [hself]; exact hmet.task, by rw [hself]; exact hmet.link, hmet.reads, hmet.attached⟩
  · rw [hself]

/-- The note gives its text to the task. -/
theorem pointInv_updateTask (h : PointInv env connection st (.updateTask run mapping task note todo))
    (hnext : answered env connection userId st (.updateTask run mapping task note todo) c = some (st', next)) :
    PointInv env connection st' next := by
  obtain ⟨hloop, hmet, hnote⟩ := h
  simp only [answered] at hnext
  split at hnext
  · cases hnext
    trivial
  · next stored hstored =>
    simp only [Option.some.injEq, Prod.mk.injEq] at hnext
    obtain ⟨rfl, rfl⟩ := hnext
    rw [Option.filter_eq_some_iff] at hstored
    obtain ⟨hfind, -⟩ := hstored
    have htask := hmet.task
    rw [hmet.sameId] at hfind ⊢
    have hfetches : connection.fetches st.graph stored.listId = true := by
      simp only [Store.cell, hfind, Option.filter_some] at htask
      split at htask
      · next hfetches => exact hfetches
      · cases htask
    have hself : (overwriteTask st mapping.externalId note c.lastModifiedDateTime).cell connection mapping.externalId =
        { st.cell connection mapping.externalId with
          task := some (taskOfNote note c.lastModifiedDateTime stored).toMicrosoftTodoTaskRecord } :=
      cell_overwriteTask_self hfind hfetches
    refine ⟨hloop.frame (fun y hne => cell_overwriteTask_ne hne) ?_ rfl, _, ?_, note, ?_, rfl, rfl⟩
    · rw [hself, hmet.task]
      rfl
    · exact ⟨(Table.find_eq_some.mp hfind).2, by rw [hself], by rw [hself]; exact hmet.link, hmet.reads, hmet.attached⟩
    · rw [hself]
      exact hnote

/-- The note goes to the trash. -/
theorem pointInv_deleteNote {noteId : String} (h : PointInv env connection st (.deleteNote run mapping noteId links))
    (hnext : answered env connection userId st (.deleteNote run mapping noteId links) c = some (st', next)) :
    PointInv env connection st' next := by
  obtain ⟨hloop, hmissed, rfl, -⟩ := h
  simp only [answered] at hnext
  split at hnext
  · cases hnext
    trivial
  · simp only [Option.some.injEq, Prod.mk.injEq] at hnext
    obtain ⟨rfl, rfl⟩ := hnext
    refine pointInv_deletionLoop
      (((hloop.frame (fun y hne => cell_trashNote_ne hmissed.link hmissed.reads hne) rfl rfl).settle
      ?_).add _)
    unfold Cell.Quiet
    rw [cell_trashNote_link hmissed.link]
    rw [show ((trashNote st mapping mapping.localResourceId userId c.now).cell connection mapping.externalId).task = none
      from hmissed.task]
    exact fun _ _ hdeleted => by cases hdeleted

/-- **One statement.** -/
theorem pointInv_stmt (h : PointInv env connection st point)
    (hnext : syncStmt env connection userId st 0 point c = some (st', next)) :
    PointInv env connection st' next := by
  rcases syncStmt_cases hnext with ⟨rfl, e, rfl⟩ | hnext
  · trivial
  · cases point with
    | accessToken =>
      cases hnext
      trivial
    | listTodoLists =>
      cases hnext
      refine pointInv_listLoop ⟨fun listId => ?_, fun x fetched => ?_⟩ fun listId => ?_
      · simp [ConnectionRecord.fetches, Listed]
      · simp
      · simp [Listed, Table.mem_findMany, Table.mem_def]
    | listTasks lists fetch listId selected =>
      cases hnext
      exact pointInv_listLoop (fetchInv_setTasks h.1 h.2.1) h.2.2
    | findMappings fetch =>
      cases hnext
      exact pointInv_taskLoop (loopInv_init h rfl)
    | importTask run fetched todo =>
      simp only [answered] at hnext
      split at hnext
      · next hfresh =>
        cases hnext
        exact pointInv_importTask h.1 h.2.2.2 h.2.1 hfresh rfl
      · cases hnext
    | readNote run mapping task todo =>
      obtain ⟨hloop, hmet⟩ := h
      have hcell := cell_note hmet.link hmet.reads
      simp only [answered] at hnext
      split at hnext
      · next hnone =>
        cases hnext
        rw [hnone] at hcell
        exact pointInv_taskLoop ((hloop.settle (hmet.quiet fun note hnote => by cases hcell.symm.trans hnote)).add _)
      · next note hfind =>
        rw [hfind, Option.filter_some] at hcell
        split at hnext
        · next hdeleted =>
          cases hnext
          rw [if_neg (by simpa [Option.isSome_iff_ne_none] using hdeleted)] at hcell
          exact pointInv_taskLoop ((hloop.settle (hmet.quiet fun note hnote => by cases hcell.symm.trans hnote)).add _)
        · next hactive =>
          cases hnext
          rw [if_pos (by simpa using hactive)] at hcell
          exact pointInv_reconcile hloop hmet hcell
    | updateNote run mapping task updatedAt todo => exact pointInv_updateNote h hnext
    | updateTask run mapping task note todo => exact pointInv_updateTask h hnext
    | updateMapping run mapping state outcome todo =>
      simp only [answered] at hnext
      split at hnext
      · cases hnext
        trivial
      · cases hnext
        exact pointInv_updateMapping h
    | readDeleted run mapping links =>
      obtain ⟨hloop, hmissed⟩ := h
      have hcell := cell_note hmissed.link hmissed.reads
      simp only [answered] at hnext
      split at hnext
      · next hnone =>
        cases hnext
        rw [hnone] at hcell
        exact pointInv_deletionLoop ((hloop.settle (hmissed.quiet hcell)).add _)
      · next note hfind =>
        rw [hfind, Option.filter_some] at hcell
        split at hnext
        · next hdeleted =>
          cases hnext
          rw [if_neg (by simpa [Option.isSome_iff_ne_none] using hdeleted)] at hcell
          exact pointInv_deletionLoop ((hloop.settle (hmissed.quiet hcell)).add _)
        · next hactive =>
          cases hnext
          rw [if_pos (by simpa using hactive)] at hcell
          exact ⟨hloop, hmissed, (Table.find_eq_some.mp hfind).2, note, hcell⟩
    | deleteNote run mapping noteId links => exact pointInv_deleteNote h hnext
    | finish counts =>
      cases hnext
      exact h
    | done result => cases hnext

/-! ## Nothing to do -/

/-- The link but for the time of the last synchronisation. -/
def ExternalItemMapping.content (mapping : ExternalItemMapping) : ExternalItemMapping :=
  { mapping with lastSyncedAt := 0 }

/-- The same notes, tasks, lists and contents of links. -/
structure SameContent (st st' : Store) : Prop where
  notes : st'.notes = st.notes
  graph : st'.graph = st.graph
  mappings : st'.mappings.rows.map ExternalItemMapping.content = st.mappings.rows.map ExternalItemMapping.content

theorem SameContent.refl (st : Store) : SameContent st st := ⟨rfl, rfl, rfl⟩

theorem SameContent.trans {st₁ : Store} (h : SameContent st st₁) (h' : SameContent st₁ st') : SameContent st st' :=
  ⟨h'.notes.trans h.notes, h'.graph.trans h.graph, h'.mappings.trans h.mappings⟩

theorem sameContent_touch {now : Int} : SameContent st (touch st mapping now) :=
  ⟨rfl, rfl, Rows.map_updateMany fun _ _ => rfl⟩

theorem settled_touch {now : Int} (h : Settled env connection st) (hlink : st.linkOf connection x = some mapping) :
    Settled env connection (touch st mapping now) := by
  intro y
  rcases eq_or_ne y x with rfl | hne
  · have hquiet := h y
    have hcell : (st.cell connection y).link = some mapping := hlink
    unfold Cell.Quiet at hquiet ⊢
    rw [hcell] at hquiet
    rw [cell_touch_self hlink]
    cases htask : (st.cell connection y).task with
    | none =>
      rw [htask] at hquiet
      exact hquiet
    | some task =>
      rw [htask] at hquiet
      exact hquiet
  · rw [cell_touch_ne hlink hne]
    exact h y

namespace SyncPoint

/-- The next statement writes no text and no note. -/
def calm : SyncPoint → Bool
  | .updateNote _ _ _ _ _ => false
  | .updateTask _ _ _ _ _ => false
  | .updateMapping _ _ state _ _ => state.isNone
  | .deleteNote _ _ _ _ => false
  | _ => true

def ended : SyncPoint → Bool
  | .done _ => true
  | _ => false

end SyncPoint

theorem calm_listLoop : (listLoop lists fetch selected).calm = true := by
  induction selected generalizing fetch with
  | nil => rfl
  | cons listId selected ih =>
    unfold listLoop
    split
    · rfl
    · exact ih

theorem calm_deletionLoop : (deletionLoop run links).calm = true := by
  induction links with
  | nil => rfl
  | cons mapping links ih =>
    unfold deletionLoop
    split
    · exact ih
    · rfl

theorem calm_taskLoop : (taskLoop run todo).calm = true := by
  induction todo generalizing run with
  | nil => exact calm_deletionLoop
  | cons fetched todo ih =>
    unfold taskLoop
    repeat' split
    · exact ih
    · rfl
    · exact ih
    · rfl

/-- A link that is up to date is left as it is. -/
theorem reconcile_upToDate {now : Int} (h : Cell.UpToDate env mapping task note) :
    reconcile env run mapping task note todo now = .updateMapping run mapping none .skipped todo := by
  have hlocal : localHash env note.toNoteText ≠ "" := contentHash_ne_empty _ _
  have hexternal : externalHash env task ≠ "" := contentHash_ne_empty _ _
  unfold reconcile
  simp [h.1, h.2, hlocal, hexternal]

/-- **One statement where all cells are quiet.** -/
theorem calm_stmt (h : PointInv env connection st point) (hsettled : Settled env connection st)
    (hcalm : point.calm = true) (hnext : syncStmt env connection userId st 0 point c = some (st', next)) :
    SameContent st st' ∧ Settled env connection st' ∧ next.calm = true := by
  have hsame : ∀ {point'}, some (st, point') = some (st', next) → point'.calm = true →
      SameContent st st' ∧ Settled env connection st' ∧ next.calm = true := by
    intro point' heq hcalm'
    cases heq
    exact ⟨SameContent.refl st, hsettled, hcalm'⟩
  rcases syncStmt_cases hnext with ⟨rfl, e, rfl⟩ | hnext
  · exact ⟨SameContent.refl _, hsettled, rfl⟩
  · cases point with
    | accessToken => exact hsame hnext rfl
    | listTodoLists => exact hsame hnext calm_listLoop
    | listTasks lists fetch listId selected => exact hsame hnext calm_listLoop
    | findMappings fetch => exact hsame hnext calm_taskLoop
    | importTask run fetched todo =>
      obtain ⟨-, htask, hid, -⟩ := h
      have hquiet := hsettled fetched.task.id
      simp only [answered] at hnext
      split at hnext
      · cases hlink : st.linkOf connection fetched.task.id with
        | none =>
          have hcell : (st.cell connection fetched.task.id).link = none := hlink
          unfold Cell.Quiet at hquiet
          rw [htask, hcell] at hquiet
          exact absurd hquiet hid
        | some existing =>
          simp only [importTask, hlink] at hnext
          cases hnext
          exact ⟨sameContent_touch, settled_touch hsettled hlink, calm_taskLoop⟩
      · cases hnext
    | readNote run mapping task todo =>
      obtain ⟨-, hmet⟩ := h
      have hquiet := hsettled mapping.externalId
      unfold Cell.Quiet at hquiet
      rw [hmet.task, hmet.link] at hquiet
      have hcell := cell_note hmet.link hmet.reads
      simp only [answered] at hnext
      split at hnext
      · exact hsame hnext calm_taskLoop
      · next note hfind =>
        rw [hfind, Option.filter_some] at hcell
        split at hnext
        · exact hsame hnext calm_taskLoop
        · next hactive =>
          rw [if_pos (by simpa using hactive)] at hcell
          rw [reconcile_upToDate (hquiet hmet.reads hmet.attached note hcell)] at hnext
          exact hsame hnext rfl
    | updateNote run mapping task updatedAt todo => cases hcalm
    | updateTask run mapping task note todo => cases hcalm
    | updateMapping run mapping state outcome todo =>
      obtain ⟨-, task, hmet, -⟩ := h
      cases Option.isNone_iff_eq_none.mp hcalm
      simp only [answered] at hnext
      split at hnext
      · exact hsame hnext rfl
      · cases hnext
        exact ⟨sameContent_touch, settled_touch hsettled hmet.link, calm_taskLoop⟩
    | readDeleted run mapping links =>
      obtain ⟨-, hmissed⟩ := h
      have hquiet := hsettled mapping.externalId
      unfold Cell.Quiet at hquiet
      rw [hmissed.task, hmissed.link] at hquiet
      have hcell := cell_note hmissed.link hmissed.reads
      simp only [answered] at hnext
      split at hnext
      · exact hsame hnext calm_deletionLoop
      · next note hfind =>
        rw [hfind, Option.filter_some] at hcell
        split at hnext
        · exact hsame hnext calm_deletionLoop
        · next hactive =>
          rw [if_pos (by simpa using hactive),
            hquiet hmissed.reads hmissed.attached hmissed.undeleted hmissed.listed] at hcell
          cases hcell
    | deleteNote run mapping noteId links => cases hcalm
    | finish counts => exact hsame hnext rfl
    | done result => cases hnext

/-! ## Runs -/

/-- The statements of a run, one after the other, up to a point of the given kind. -/
def performSync (env : Env) (connection : ConnectionRecord) (userId : String) (kind : SyncPoint → Bool) (st : Store)
    (cs : List SyncChoice) : Option (Store × SyncPoint) :=
  Interleave.alone (syncStmt env connection userId) kind st .accessToken cs

variable {kind : SyncPoint → Bool} {cs : List SyncChoice}

theorem pointInv_run (h : performSync env connection userId kind st cs = some (st', point)) :
    PointInv env connection st' point := by
  have hstart : PointInv env connection st .accessToken := trivial
  exact Interleave.alone_inv (fun _ _ _ _ _ hinv hstmt => pointInv_stmt hinv hstmt) hstart h

/-- After a successful run every cell is quiet. -/
theorem settled_sync {counts : SyncCounts}
    (h : performSync env connection userId kind st cs = some (st', .done (.ok counts))) :
    Settled env connection st' := pointInv_run h

theorem sameContent_sync (hsettled : Settled env connection st)
    (h : performSync env connection userId kind st cs = some (st', point)) : SameContent st st' := by
  have hstart : PointInv env connection st .accessToken := trivial
  have hrun : SameContent st st' ∧ PointInv env connection st' point ∧ Settled env connection st' ∧
      point.calm = true := by
    refine Interleave.alone_inv
      (K := fun st₁ point => SameContent st st₁ ∧ PointInv env connection st₁ point ∧ Settled env connection st₁ ∧
        point.calm = true)
      ?_ ⟨SameContent.refl st, hstart, hsettled, rfl⟩ h
    intro st₁ point₁ c st₂ point₂ hK hstmt
    obtain ⟨hsame, hinv, hsettled₁, hcalm⟩ := hK
    obtain ⟨hsame', hsettled₂, hcalm₂⟩ := calm_stmt hinv hsettled₁ hcalm hstmt
    exact ⟨hsame.trans hsame', pointInv_stmt hinv hstmt, hsettled₂, hcalm₂⟩
  exact hrun.1

/-! ## Notes with a task -/

/-- The note has a link of the connection to a task in the fetched lists. -/
def Linked (connection : ConnectionRecord) (st : Store) (note : Note) : Prop :=
  ∃ mapping ∈ st.mappings, mapping.connectionId = connection.id ∧ mapping.localResourceType = "note" ∧
    mapping.localResourceId = note.id ∧
      ∃ task ∈ st.graph.tasks, task.id = mapping.externalId ∧ connection.fetches st.graph task.listId = true

instance : Decidable (Linked connection st note) :=
  inferInstanceAs (Decidable (∃ mapping ∈ st.mappings.rows, mapping.connectionId = connection.id ∧
    mapping.localResourceType = "note" ∧ mapping.localResourceId = note.id ∧
      ∃ task ∈ st.graph.tasks.rows, task.id = mapping.externalId ∧ connection.fetches st.graph task.listId = true))

theorem mem_importTask {outcome : Outcome} (hfresh : freshIds st c = true)
    (himport : importTask env connection userId st fetched c = (st', outcome)) (hnote : note ∈ st.notes) :
    note ∈ st'.notes := by
  cases hlink : st.linkOf connection fetched.task.id with
  | some existing =>
    simp only [importTask, hlink] at himport
    cases himport
    exact hnote
  | none =>
    obtain ⟨st₁, hnew, hinserted⟩ := importTask_new env userId hlink hfresh
    rw [hnew] at himport
    cases himport
    exact (hinserted.notes note).mpr (Or.inl hnote)

/-- A link that has not been met is not the link of a note whose task has been fetched. -/
theorem note_ne_of_missed (hmissed : Missed connection st mapping) (hlinked : Linked connection st note) :
    note.id ≠ mapping.localResourceId := by
  rintro hid
  obtain ⟨other, hother, hconnection, htype, hlocal, task, htask, hexternal, hfetches⟩ := hlinked
  obtain ⟨hmem, hconnection', -⟩ := linkOf_eq_some.mp hmissed.link
  have hreads := hmissed.reads
  simp only [ConnectionRecord.reads, Bool.and_eq_true, decide_eq_true_eq] at hreads
  have hkey : other.localKey = mapping.localKey := by
    simp only [ExternalItemMapping.localKey, hconnection, htype, hlocal, hconnection', hreads.1.2, hid]
  rw [st.localOnce.eq hother hmem hkey rfl] at hexternal
  have hcell := hmissed.task
  simp only [Store.cell, Table.find_eq_some.mpr ⟨htask, hexternal⟩, Option.filter_some, hfetches, if_true,
    Option.map_some] at hcell
  cases hcell

/-- **No statement puts a note into the trash whose task has been fetched.** -/
theorem kept_stmt (h : PointInv env connection st point)
    (hnext : syncStmt env connection userId st 0 point c = some (st', next))
    (hnote : note ∈ st.notes) (hactive : note.deletedAt = none) (hlinked : Linked connection st note) :
    ∃ note' ∈ st'.notes, note'.id = note.id ∧ note'.deletedAt = none := by
  have hkept : st'.notes = st.notes → ∃ note' ∈ st'.notes, note'.id = note.id ∧ note'.deletedAt = none :=
    fun hnotes => ⟨note, hnotes ▸ hnote, rfl, hactive⟩
  rcases syncStmt_cases hnext with ⟨rfl, e, rfl⟩ | hnext
  · exact hkept rfl
  · cases point with
    | accessToken => cases hnext; exact hkept rfl
    | listTodoLists => cases hnext; exact hkept rfl
    | listTasks lists fetch listId selected => cases hnext; exact hkept rfl
    | findMappings fetch => cases hnext; exact hkept rfl
    | importTask run fetched todo =>
      simp only [answered] at hnext
      split at hnext
      · next hfresh =>
        cases hnext
        exact ⟨note, mem_importTask hfresh rfl hnote, rfl, hactive⟩
      · cases hnext
    | readNote run mapping task todo =>
      simp only [answered] at hnext
      repeat' split at hnext
      all_goals cases hnext; exact hkept rfl
    | updateNote run mapping task updatedAt todo =>
      simp only [answered] at hnext
      split at hnext
      · cases hnext
        exact hkept rfl
      · cases hnext
        refine ⟨_, Rows.mem_updateMany.mpr ⟨note, hnote, rfl⟩, ?_⟩
        split
        · exact ⟨rfl, hactive⟩
        · exact ⟨rfl, hactive⟩
    | updateTask run mapping task note todo =>
      simp only [answered] at hnext
      split at hnext
      · cases hnext
        exact hkept rfl
      · cases hnext
        exact hkept rfl
    | updateMapping run mapping state outcome todo =>
      simp only [answered] at hnext
      split at hnext
      · cases hnext
        exact hkept rfl
      · cases hnext
        cases state with
        | none => exact hkept rfl
        | some state => exact hkept rfl
    | readDeleted run mapping links =>
      simp only [answered] at hnext
      repeat' split at hnext
      all_goals cases hnext; exact hkept rfl
    | deleteNote run mapping noteId links =>
      obtain ⟨-, hmissed, rfl, -⟩ := h
      simp only [answered] at hnext
      split at hnext
      · cases hnext
        exact hkept rfl
      · cases hnext
        refine ⟨note, Rows.mem_updateMany.mpr ⟨note, hnote, ?_⟩, rfl, hactive⟩
        rw [if_neg (by simpa using note_ne_of_missed hmissed hlinked)]
    | finish counts => cases hnext; exact hkept rfl
    | done result => cases hnext

/-- **The synchronisation with Microsoft To Do.** After a successful run, whatever the notes, links and tasks before it, a
second run changes no note, no task and no content of a link; and no statement of a run puts a note into the trash that
has a link to a task in the lists that the run fetches. -/
theorem todo_sync (env : Env) (connection : ConnectionRecord) (userId : String) :
    (∀ st cs st₁ counts kind cs' st₂ point,
      performSync env connection userId SyncPoint.ended st cs = some (st₁, .done (.ok counts)) →
        performSync env connection userId kind st₁ cs' = some (st₂, point) → SameContent st₁ st₂) ∧
    (∀ st kind cs st₁ point c st₂ next, performSync env connection userId kind st cs = some (st₁, point) →
      syncStmt env connection userId st₁ 0 point c = some (st₂, next) →
        ∀ note ∈ st₁.notes, note.deletedAt = none → Linked connection st₁ note →
          ∃ note' ∈ st₂.notes, note'.id = note.id ∧ note'.deletedAt = none) := by
  constructor
  · intro st cs st₁ counts kind cs' st₂ point hfirst hsecond
    exact sameContent_sync (settled_sync hfirst) hsecond
  · intro st kind cs st₁ point c st₂ next hrun hstmt note hnote hactive hlinked
    exact kept_stmt (pointInv_run hrun) hstmt hnote hactive hlinked

/-! ## A task that is imported -/

namespace Demo

/-- The digest of the one text below. -/
def node : Env where
  sha256 value :=
    if value = "\x7b\"title\":\"Milch\",\"content\":\"Milch\"\x7d" then
      "fea4934396f4b84bd844b0c253ab0a7ad04eef49be9d96cdcba3bdfdcf210963"
    else String.ofList (List.replicate 64 '0')
  sha256_length value := by
    split
    · decide +kernel
    · decide +kernel
  parseDate value := if value = "2026-01-05T08:00:00Z" then some 1767600000000 else none

def household : ConnectionRecord := ⟨"connection", ["list"]⟩

/-- A list with one task, and no notes. -/
def oneTask : Store where
  notes := .empty
  mappings := .empty
  graph :=
    { lists := .single ⟨"list", "Einkauf"⟩
      tasks := .single ⟨⟨"task", some "Milch", none, some "2026-01-05T08:00:00Z"⟩, "list"⟩ }
  externalOnce := fun _ h => nomatch h
  localOnce := fun _ h => nomatch h

def answer (now : Int) : SyncChoice := ⟨none, now, RowOrder.stored, "note", "mapping", none⟩

/-- The run that imports the task. -/
def firstRun : Option (Store × SyncPoint) :=
  performSync node household "user" SyncPoint.ended oneTask (List.replicate 6 (answer 1767600060000))

def succeeded : SyncPoint → Bool
  | .done (.ok _) => true
  | _ => false

theorem of_succeeded {point : SyncPoint} (h : succeeded point = true) : ∃ counts, point = .done (.ok counts) := by
  unfold succeeded at h
  split at h
  · exact ⟨_, rfl⟩
  · cases h

/-- The run after it, up to the update of the link. -/
def secondRun (st : Store) : Option (Store × SyncPoint) :=
  performSync node household "user" (fun _ => true) st (List.replicate 5 (answer 1767600120000))

end Demo

theorem todo_sync_one_task : ∃ st₁ counts st₂ point st₃ next note, Demo.firstRun = some (st₁, .done (.ok counts)) ∧
    Demo.secondRun st₁ = some (st₂, point) ∧ SameContent st₁ st₂ ∧
      syncStmt Demo.node Demo.household "user" st₂ 0 point (Demo.answer 1767600120000) = some (st₃, next) ∧
        note ∈ st₂.notes ∧ ∃ note' ∈ st₃.notes, note'.id = note.id ∧ note'.deletedAt = none := by
  have hrun : Demo.firstRun.any fun r => Demo.succeeded r.2 && (Demo.secondRun r.1).any fun r' =>
      (syncStmt Demo.node Demo.household "user" r'.1 0 r'.2 (Demo.answer 1767600120000)).isSome &&
        r'.1.notes.rows.any fun note => note.deletedAt = none ∧ Linked Demo.household r'.1 note := by
    decide +kernel
  obtain ⟨⟨st₁, first⟩, hfirst, hrest⟩ := (Option.any_eq_true _ _).mp hrun
  obtain ⟨hsucceeded, hrest⟩ := Bool.and_eq_true_iff.mp hrest
  obtain ⟨⟨st₂, point⟩, hsecond, hrest⟩ := (Option.any_eq_true _ _).mp hrest
  obtain ⟨hstmt, hnotes⟩ := Bool.and_eq_true_iff.mp hrest
  obtain ⟨⟨st₃, next⟩, hstmt⟩ := Option.isSome_iff_exists.mp hstmt
  obtain ⟨note, hnote, hlinked⟩ := List.any_eq_true.mp hnotes
  obtain ⟨hactive, hlinked⟩ := of_decide_eq_true hlinked
  obtain ⟨counts, rfl⟩ := Demo.of_succeeded hsucceeded
  obtain ⟨hquiescent, hsafe⟩ := todo_sync Demo.node Demo.household "user"
  have hsame := hquiescent Demo.oneTask _ st₁ counts _ _ st₂ point hfirst hsecond
  have hkept := hsafe st₁ _ _ st₂ point _ st₃ next hsecond hstmt note hnote hactive hlinked
  exact ⟨st₁, counts, st₂, point, st₃, next, note, hfirst, hsecond, hsame, hstmt, hnote, hkept⟩

end AdWiki.Integrations
