import AdWiki.Integrations.Cells

/-!
# The loops of a synchronisation

The invariant of the two loops (`LoopInv`): for every external id there is nothing to do any more, or the task is still to
come, or the link is. What has been read of those that are still to come is as it is in the tables.

* `pointInv_taskLoop`: the invariant of the loops gives that of the next statement.
-/

namespace AdWiki.Integrations

variable {env : Env} {connection : ConnectionRecord} {userId : String} {st st' : Store} {run : SyncRun} {x y : String}
  {mapping : ExternalItemMapping} {task : MicrosoftTodoTaskRecord} {fetched : FetchedTask} {tasks todo : List FetchedTask}
  {links : List ExternalItemMapping} {current : Option String}

/-- The invariant of the loops, with the tasks and the links that are still to come. The cell `current` is at hand: it may
be unsettled, and does not come again. -/
structure LoopInv (env : Env) (connection : ConnectionRecord) (st : Store) (run : SyncRun) (tasks : List FetchedTask)
    (links : List ExternalItemMapping) (current : Option String) : Prop where
  task : ∀ fetched ∈ tasks, (st.cell connection fetched.task.id).task = some fetched.task
  known : ∀ fetched ∈ tasks, ∀ mapping, run.mappingOf fetched.task.id = some mapping →
    (st.cell connection fetched.task.id).link = some mapping
  unknown : ∀ fetched ∈ tasks, run.mappingOf fetched.task.id = none →
    ∀ mapping, (st.cell connection fetched.task.id).link = some mapping → connection.reads mapping = false
  link : ∀ mapping ∈ links, mapping.id ∉ run.processedMappings →
    (st.cell connection mapping.externalId).link = some mapping
  read : ∀ mapping ∈ links, mapping ∈ run.mappings ∧ connection.reads mapping = true
  passed : ∀ x, (st.cell connection x).task.isSome = true → (∃ fetched ∈ tasks, fetched.task.id = x) ∨
    ∀ mapping ∈ run.mappings, mapping.externalId = x → mapping.id ∈ run.processedMappings
  lists : ∀ listId, run.fetchedListIds.contains listId = connection.fetches st.graph listId
  taskOnce : (tasks.map fun fetched => fetched.task.id).Nodup
  linkOnce : (links.map ExternalItemMapping.externalId).Nodup
  aside : ∀ x, current = some x → (∀ fetched ∈ tasks, fetched.task.id ≠ x) ∧
    ∀ mapping ∈ links, mapping.id ∉ run.processedMappings → mapping.externalId ≠ x
  quiet : ∀ x, current ≠ some x → (st.cell connection x).Quiet env connection st.graph ∨
    (∃ fetched ∈ tasks, fetched.task.id = x) ∨
      ∃ mapping ∈ links, mapping.id ∉ run.processedMappings ∧ mapping.externalId = x

/-- A statement about the cell at hand. -/
theorem LoopInv.frame (h : LoopInv env connection st run tasks links (some x))
    (hcells : ∀ y, y ≠ x → st'.cell connection y = st.cell connection y)
    (htask : (st'.cell connection x).task.isSome = (st.cell connection x).task.isSome)
    (hlists : st'.graph.lists = st.graph.lists) :
    LoopInv env connection st' run tasks links (some x) := by
  obtain ⟨hnotTask, hnotLink⟩ := h.aside x rfl
  refine { h with task := ?_, known := ?_, unknown := ?_, link := ?_, passed := ?_, lists := ?_, quiet := ?_ }
  · intro fetched hfetched
    rw [hcells _ (hnotTask fetched hfetched)]
    exact h.task fetched hfetched
  · intro fetched hfetched
    rw [hcells _ (hnotTask fetched hfetched)]
    exact h.known fetched hfetched
  · intro fetched hfetched
    rw [hcells _ (hnotTask fetched hfetched)]
    exact h.unknown fetched hfetched
  · intro mapping hmapping hnew
    rw [hcells _ (hnotLink mapping hmapping hnew)]
    exact h.link mapping hmapping hnew
  · intro y hsome
    refine h.passed y ?_
    rcases eq_or_ne y x with rfl | hne
    · rw [← htask]
      exact hsome
    · rw [← hcells y hne]
      exact hsome
  · rw [fetches_congr hlists]
    exact h.lists
  · intro y hne
    have hyx : y ≠ x := fun heq => hne (congrArg some heq.symm)
    rw [hcells y hyx, quiet_congr hlists]
    exact h.quiet y hne

/-- The cell at hand is done. -/
theorem LoopInv.settle (h : LoopInv env connection st run tasks links (some x))
    (hquiet : (st.cell connection x).Quiet env connection st.graph) : LoopInv env connection st run tasks links none := by
  refine { h with aside := nofun, quiet := fun y _ => ?_ }
  rcases eq_or_ne y x with rfl | hne
  · exact Or.inl hquiet
  · exact h.quiet y fun heq => hne (Option.some.inj heq).symm

theorem LoopInv.add (h : LoopInv env connection st run tasks links current) (outcome : Outcome) :
    LoopInv env connection st (run.add outcome) tasks links current := { h with }

/-! ## The next task, the next link -/

theorem mappingOf_eq_some (h : (run.mappings.map ExternalItemMapping.externalId).Nodup) :
    run.mappingOf x = some mapping ↔ mapping ∈ run.mappings ∧ mapping.externalId = x := Table.get?_index_eq_some h

theorem LoopInv.next_unknown (h : LoopInv env connection st run (fetched :: todo) run.mappings none)
    (hnone : run.mappingOf fetched.task.id = none) :
    LoopInv env connection st run todo run.mappings (some fetched.task.id) := by
  have hno : ∀ mapping ∈ run.mappings, mapping.externalId ≠ fetched.task.id := by
    intro mapping hmapping hid
    rw [(mappingOf_eq_some h.linkOnce).mpr ⟨hmapping, hid⟩] at hnone
    cases hnone
  obtain ⟨hnot, htodo⟩ := List.nodup_cons.mp h.taskOnce
  refine { h with
    task := fun f hf => h.task f (List.mem_cons_of_mem _ hf)
    known := fun f hf => h.known f (List.mem_cons_of_mem _ hf)
    unknown := fun f hf => h.unknown f (List.mem_cons_of_mem _ hf)
    taskOnce := htodo
    passed := ?_, aside := ?_, quiet := ?_ }
  · intro x hsome
    rcases h.passed x hsome with ⟨f, hf, rfl⟩ | hall
    · rcases List.mem_cons.mp hf with rfl | hf
      · exact Or.inr fun mapping hmapping hid => absurd hid (hno mapping hmapping)
      · exact Or.inl ⟨f, hf, rfl⟩
    · exact Or.inr hall
  · rintro x ⟨⟩
    exact ⟨fun f hf hid => hnot (List.mem_map.mpr ⟨f, hf, hid⟩), fun mapping hmapping _ => hno mapping hmapping⟩
  · intro x hne
    rcases h.quiet x nofun with hquiet | ⟨f, hf, rfl⟩ | hlink
    · exact Or.inl hquiet
    · rcases List.mem_cons.mp hf with rfl | hf
      · exact absurd rfl hne
      · exact Or.inr (Or.inl ⟨f, hf, rfl⟩)
    · exact Or.inr (Or.inr hlink)

theorem LoopInv.next_known (h : LoopInv env connection st run (fetched :: todo) run.mappings none)
    (hsome : run.mappingOf fetched.task.id = some mapping) :
    LoopInv env connection st (run.process mapping) todo run.mappings (some fetched.task.id) := by
  obtain ⟨hmem, hid⟩ := (mappingOf_eq_some h.linkOnce).mp hsome
  have hat := h.known fetched List.mem_cons_self mapping hsome
  have hsame : ∀ other ∈ run.mappings, other.externalId = fetched.task.id → other = mapping :=
    fun other hother hid' => List.inj_on_of_nodup_map h.linkOnce hother hmem (hid'.trans hid.symm)
  have hold : ∀ {id}, id ∉ (run.process mapping).processedMappings → id ∉ run.processedMappings :=
    fun hnot hid => hnot (List.mem_cons_of_mem _ hid)
  obtain ⟨hnot, htodo⟩ := List.nodup_cons.mp h.taskOnce
  refine { h with
    task := fun f hf => h.task f (List.mem_cons_of_mem _ hf)
    known := fun f hf => h.known f (List.mem_cons_of_mem _ hf)
    unknown := fun f hf => h.unknown f (List.mem_cons_of_mem _ hf)
    link := fun other hother hnew => h.link other hother (hold hnew)
    taskOnce := htodo
    passed := ?_, aside := ?_, quiet := ?_ }
  · intro x hfetched
    rcases h.passed x hfetched with ⟨f, hf, rfl⟩ | hall
    · rcases List.mem_cons.mp hf with rfl | hf
      · refine Or.inr fun other hother hid' => ?_
        rw [hsame other hother hid']
        exact List.mem_cons_self
      · exact Or.inl ⟨f, hf, rfl⟩
    · exact Or.inr fun other hother hid' => List.mem_cons_of_mem _ (hall other hother hid')
  · rintro x ⟨⟩
    refine ⟨fun f hf hid' => hnot (List.mem_map.mpr ⟨f, hf, hid'⟩), fun other hother hnew hid' => hnew ?_⟩
    rw [hsame other hother hid']
    exact List.mem_cons_self
  · intro x hne
    rcases h.quiet x nofun with hquiet | ⟨f, hf, rfl⟩ | ⟨other, hother, hnew, rfl⟩
    · exact Or.inl hquiet
    · rcases List.mem_cons.mp hf with rfl | hf
      · exact absurd rfl hne
      · exact Or.inr (Or.inl ⟨f, hf, rfl⟩)
    · refine Or.inr (Or.inr ⟨other, hother, fun hprocessed => ?_, rfl⟩)
      have hne' : other.externalId ≠ fetched.task.id := fun heq => hne (congrArg some heq.symm)
      rcases List.mem_cons.mp hprocessed with heq | hprocessed
      · exact link_id_ne hat (h.link other hother hnew) hne' heq
      · exact hnew hprocessed

/-- After the tasks, what is not quiet is a link that is still to come. -/
theorem LoopInv.next_link (h : LoopInv env connection st run [] (mapping :: links) none)
    (hnew : mapping.id ∉ run.processedMappings) :
    LoopInv env connection st run [] links (some mapping.externalId) ∧
      (st.cell connection mapping.externalId).link = some mapping ∧
        (st.cell connection mapping.externalId).task = none := by
  obtain ⟨hnot, hlinks⟩ := List.nodup_cons.mp h.linkOnce
  refine ⟨{ h with
    link := fun other hother => h.link other (List.mem_cons_of_mem _ hother)
    read := fun other hother => h.read other (List.mem_cons_of_mem _ hother)
    linkOnce := hlinks
    aside := ?_, quiet := ?_ }, h.link mapping List.mem_cons_self hnew, ?_⟩
  · rintro x ⟨⟩
    exact ⟨nofun, fun other hother _ hid => hnot (hid ▸ List.mem_map_of_mem hother)⟩
  · intro x hne
    rcases h.quiet x nofun with hquiet | ⟨f, hf, -⟩ | ⟨other, hother, hnew', rfl⟩
    · exact Or.inl hquiet
    · cases hf
    · rcases List.mem_cons.mp hother with rfl | hother
      · exact absurd rfl hne
      · exact Or.inr (Or.inr ⟨other, hother, hnew', rfl⟩)
  · by_contra hsome
    rcases h.passed mapping.externalId (Option.isSome_iff_ne_none.mpr hsome) with ⟨f, hf, -⟩ | hall
    · cases hf
    · exact hnew (hall mapping (h.read mapping List.mem_cons_self).1 rfl)

/-- A link that is left out. -/
theorem LoopInv.pass (h : LoopInv env connection st run [] (mapping :: links) none)
    (hpasses : run.passes mapping = true) :
    LoopInv env connection st run [] links none := by
  by_cases hnew : mapping.id ∈ run.processedMappings
  · refine { h with
      link := fun other hother => h.link other (List.mem_cons_of_mem _ hother)
      read := fun other hother => h.read other (List.mem_cons_of_mem _ hother)
      linkOnce := (List.nodup_cons.mp h.linkOnce).2
      aside := nofun, quiet := fun x hne => ?_ }
    rcases h.quiet x hne with hquiet | ⟨f, hf, -⟩ | ⟨other, hother, hnew', hid⟩
    · exact Or.inl hquiet
    · cases hf
    · rcases List.mem_cons.mp hother with rfl | hother
      · exact absurd hnew hnew'
      · exact Or.inr (Or.inr ⟨other, hother, hnew', hid⟩)
  · obtain ⟨hnext, hlink, htask⟩ := h.next_link hnew
    refine hnext.settle ?_
    unfold Cell.Quiet
    rw [htask, hlink]
    intro _ hdetached hdeleted hfetched
    simp only [SyncRun.passes, h.lists, hfetched, hdetached, hdeleted, Option.isSome_none, Bool.or_false, Bool.not_true,
      List.contains_iff_mem] at hpasses
    exact absurd hpasses hnew

/-! ## The next statement -/

/-- The list is one of the account. -/
def Listed (st : Store) (listId : String) : Prop := st.graph.lists.rows.any (·.id = listId) = true

/-- The tasks that have been fetched are those of the fetched lists; `todo` are the selected lists that are left. -/
structure FetchInv (connection : ConnectionRecord) (st : Store) (fetch : Fetch) (todo : List String) : Prop where
  lists : ∀ listId, connection.fetches st.graph listId = true ↔
    listId ∈ fetch.fetchedListIds ∨ listId ∈ todo ∧ Listed st listId
  tasks : ∀ x fetched, fetch.tasksByExternalId.get? x = some fetched ↔ ∃ task, st.graph.tasks.find x = some task ∧
    task.listId ∈ fetch.fetchedListIds ∧ fetched = ⟨task.listId, task.toMicrosoftTodoTaskRecord⟩

/-- The cell that a link is reconciled for. -/
structure Met (connection : ConnectionRecord) (st : Store) (mapping : ExternalItemMapping)
    (task : MicrosoftTodoTaskRecord) :
    Prop where
  sameId : task.id = mapping.externalId
  task : (st.cell connection mapping.externalId).task = some task
  link : (st.cell connection mapping.externalId).link = some mapping
  reads : connection.reads mapping = true
  attached : mapping.detachedAt = none

/-- The cell of a link whose task has not been fetched. -/
structure Missed (connection : ConnectionRecord) (st : Store) (mapping : ExternalItemMapping) : Prop where
  task : (st.cell connection mapping.externalId).task = none
  link : (st.cell connection mapping.externalId).link = some mapping
  reads : connection.reads mapping = true
  undeleted : mapping.externalDeletedAt = none
  attached : mapping.detachedAt = none
  listed : (mapping.externalListId.any fun listId => listId != "" && connection.fetches st.graph listId) = true

/-- The invariant of a run. -/
def PointInv (env : Env) (connection : ConnectionRecord) (st : Store) : SyncPoint → Prop
  | .accessToken => True
  | .listTodoLists => True
  | .listTasks lists fetch listId todo => FetchInv connection st fetch (listId :: todo) ∧ Listed st listId ∧
      ∀ listId, lists.any (·.id = listId) = true ↔ Listed st listId
  | .findMappings fetch => FetchInv connection st fetch []
  | .importTask run fetched todo => LoopInv env connection st run todo run.mappings (some fetched.task.id) ∧
      (st.cell connection fetched.task.id).task = some fetched.task ∧ fetched.task.id ≠ "" ∧
      ∀ mapping, (st.cell connection fetched.task.id).link = some mapping → connection.reads mapping = false
  | .readNote run mapping task todo =>
      LoopInv env connection st run todo run.mappings (some mapping.externalId) ∧ Met connection st mapping task
  | .updateNote run mapping task _ todo =>
      LoopInv env connection st run todo run.mappings (some mapping.externalId) ∧ Met connection st mapping task ∧
        ∃ note, (st.cell connection mapping.externalId).note = some note
  | .updateTask run mapping task note todo =>
      LoopInv env connection st run todo run.mappings (some mapping.externalId) ∧ Met connection st mapping task ∧
        (st.cell connection mapping.externalId).note = some note
  | .updateMapping run mapping state _ todo =>
      LoopInv env connection st run todo run.mappings (some mapping.externalId) ∧ ∃ task, Met connection st mapping task ∧
        ∃ note, (st.cell connection mapping.externalId).note = some note ∧
          match state with
          | none => Cell.UpToDate env mapping task note
          | some state =>
            state.lastLocalHash = localHash env note.toNoteText ∧ state.lastExternalHash = externalHash env task
  | .readDeleted run mapping todo =>
      LoopInv env connection st run [] todo (some mapping.externalId) ∧ Missed connection st mapping
  | .deleteNote run mapping noteId todo =>
      LoopInv env connection st run [] todo (some mapping.externalId) ∧ Missed connection st mapping ∧
        noteId = mapping.localResourceId ∧ ∃ note, (st.cell connection mapping.externalId).note = some note
  | .finish _ => Settled env connection st
  | .done (.ok _) => Settled env connection st
  | .done (.error _) => True

theorem pointInv_deletionLoop (h : LoopInv env connection st run [] links none) :
    PointInv env connection st (deletionLoop run links) := by
  induction links with
  | nil =>
    intro x
    rcases h.quiet x nofun with hquiet | ⟨f, hf, -⟩ | ⟨mapping, hmapping, -⟩
    · exact hquiet
    · cases hf
    · cases hmapping
  | cons mapping links ih =>
    unfold deletionLoop
    split
    · next hpasses => exact ih (h.pass hpasses)
    · next hpasses =>
      simp only [SyncRun.passes, h.lists, Bool.or_eq_true, Bool.not_eq_true', not_or, Bool.not_eq_true, Bool.not_eq_false,
        List.contains_iff_mem, Option.isSome_eq_false_iff, Option.isNone_iff_eq_none] at hpasses
      obtain ⟨⟨⟨hnew, hdetached⟩, hdeleted⟩, hlisted⟩ := hpasses
      obtain ⟨hnext, hlink, htask⟩ := h.next_link hnew
      exact ⟨hnext, htask, hlink, (h.read mapping List.mem_cons_self).2, hdeleted, hdetached, hlisted⟩

theorem pointInv_taskLoop (h : LoopInv env connection st run tasks run.mappings none) :
    PointInv env connection st (taskLoop run tasks) := by
  induction tasks generalizing run with
  | nil => exact pointInv_deletionLoop h
  | cons fetched todo ih =>
    have htask := h.task fetched List.mem_cons_self
    unfold taskLoop
    split
    · next hnone =>
      have hnext := h.next_unknown hnone
      have hunknown := h.unknown fetched List.mem_cons_self hnone
      split
      · next hempty =>
        refine ih ((hnext.settle ?_).add .skipped)
        unfold Cell.Quiet
        rw [htask]
        split
        · next h' _ => cases h'
        · next h' _ =>
          cases h'
          exact hempty
        · next h' _ => cases h'
        · next mapping _ hlink =>
          intro hreads
          rw [hunknown mapping hlink] at hreads
          cases hreads
      · next hid => exact ⟨hnext, htask, hid, hunknown⟩
    · next mapping hsome =>
      have hnext := h.next_known hsome
      have hlink := h.known fetched List.mem_cons_self mapping hsome
      have hid : mapping.externalId = fetched.task.id := (linkOf_eq_some.mp hlink).2.2
      split
      · next hdetached =>
        refine ih ((hnext.settle ?_).add .skipped)
        unfold Cell.Quiet
        rw [htask, hlink]
        intro _ hattached
        rw [hattached] at hdetached
        cases hdetached
      · next hdetached =>
        rw [← hid] at hnext htask hlink
        have hmem := ((mappingOf_eq_some h.linkOnce).mp hsome).1
        exact ⟨hnext, hid.symm, htask, hlink, (h.read mapping hmem).2, by simpa using hdetached⟩

end AdWiki.Integrations
