import AdWiki.Backups.JobQueue

/-!
# One backup at a time

A destination has at most one backup that waits or runs. A manual start looks for one before it creates its job, in a
statement of its own; the scheduler does not look.

* `one_backup_iff`: the interleavings in which no destination has two.
* `two_backups_started`: two manual starts that give it two.
-/

namespace AdWiki.Backups

variable {env : Env} {st st' : Store} {i : Nat} {p q : JobPoint} {c : JobChoice} {job : BackupJob}

/-- No destination has two backups that wait or run. -/
def OneBackup (st : Store) : Prop :=
  ∀ job ∈ st.jobs, ∀ other ∈ st.jobs, ∀ destinationId, activeBackup destinationId job = true →
    activeBackup destinationId other = true → job.id = other.id

/-- The scheduler creates a job: the plan is due and has a next run, and the claim goes through. -/
def creates (env : Env) (st : Store) (now : Int) (plan : BackupPlan) : Bool :=
  (nextScheduledRun env plan.schedule now).isSome && plan.nextRunAt.any fun dueAt => claims st plan dueAt

/-- A new backup finds no other one of its destination. -/
def findsNoBackup (env : Env) (s : JobSys) : JobLabel → Bool
  | .start _ => true
  | .exec i _ =>
    match s.calls[i]? with
    | some (.startCreate _ _ destinationId) => !s.store.jobs.rows.any (activeBackup destinationId)
    | some (.schedulePlan now _ plan _ _) =>
      !creates env s.store now plan || !s.store.jobs.rows.any (activeBackup plan.destinationId)
    | _ => true

/-! ## One statement -/

/-- Jobs that are not more active than before. -/
theorem OneBackup.of_back (hs : OneBackup st) (h : ∀ job' ∈ st'.jobs, ∃ job ∈ st.jobs, job.id = job'.id ∧
    ∀ destinationId, activeBackup destinationId job' = true → activeBackup destinationId job = true) : OneBackup st' := by
  intro job' hjob' other' hother' destinationId hactive hactive'
  obtain ⟨job, hjob, hid, hback⟩ := h job' hjob'
  obtain ⟨other, hother, hid', hback'⟩ := h other' hother'
  rw [← hid, ← hid']
  exact hs job hjob other hother destinationId (hback destinationId hactive) (hback' destinationId hactive')

theorem OneBackup.of_jobs (hs : OneBackup st) (h : st'.jobs = st.jobs) : OneBackup st' :=
  hs.of_back fun job hjob => ⟨job, h ▸ hjob, rfl, fun _ hactive => hactive⟩

/-- A new status, which is an active one only for jobs that have been active before. -/
theorem OneBackup.setStatus {pred : BackupJob → Bool} {status : BackupJobStatus}
    {startedAt finishedAt : BackupJob → Option Int} {errorCode : BackupJob → Option String} (hs : OneBackup st)
    (h : status = .queued ∨ status = .running → ∀ job, pred job = true → job.status = .queued ∨ job.status = .running) :
    OneBackup (st.setStatus pred status startedAt finishedAt errorCode) := by
  refine hs.of_back fun job' hjob' => ?_
  obtain ⟨job, hjob, rfl⟩ := mem_setStatus.mp hjob'
  refine ⟨job, hjob, ?_, fun destinationId hactive => ?_⟩
  · split
    · rfl
    · rfl
  · split at hactive
    · next hpred =>
      simp only [activeBackup, Bool.and_eq_true, Bool.or_eq_true, decide_eq_true_eq] at hactive ⊢
      exact ⟨hactive.1, h hactive.2 job hpred⟩
    · exact hactive

/-- A new backup keeps the destination at one exactly if there is none. -/
theorem oneBackup_create_iff {destinationId : String} (hs : OneBackup st)
    (hactive : activeBackup destinationId job = true)
    (h : st.createJob job = some st') : (!st.jobs.rows.any (activeBackup destinationId)) = true ↔ OneBackup st' := by
  obtain ⟨hmem, hnew, -, -⟩ := createJob_eq_some h
  have hdestination : ∀ other, activeBackup other job = true → other = destinationId := by
    intro other hother
    simp only [activeBackup, Bool.and_eq_true, decide_eq_true_eq] at hactive hother
    exact Option.some.inj (hother.1.1.symm.trans hactive.1.1)
  rw [Bool.not_eq_true', List.any_eq_false]
  constructor
  · intro hnone a ha b hb other hactiveA hactiveB
    rcases (hmem a).mp ha with ha | rfl
    · rcases (hmem b).mp hb with hb | rfl
      · exact hs a ha b hb other hactiveA hactiveB
      · exact absurd (hdestination other hactiveB ▸ hactiveA) (hnone a ha)
    · rcases (hmem b).mp hb with hb | rfl
      · exact absurd (hdestination other hactiveA ▸ hactiveB) (hnone b hb)
      · rfl
  · intro hone other hother hactive'
    exact hnew other hother
      (hone other ((hmem other).mpr (Or.inl hother)) job ((hmem job).mpr (Or.inr rfl)) destinationId hactive' hactive)

theorem oneBackup_of_refused {e : HttpError} (hs : OneBackup st) (h : jobRefused st e = some (st', q)) :
    OneBackup st' := by
  cases h
  exact hs

/-- Statements that create no job. -/
theorem oneBackup_stmt (hs : OneBackup st)
    (hstart : ∀ userId planId destinationId, p ≠ .startCreate userId planId destinationId)
    (hschedule : ∀ now plans plan rest scheduled, p ≠ .schedulePlan now plans plan rest scheduled)
    (h : jobStmt env st i p c = some (st', q)) : OneBackup st' := by
  cases p with
  | startCreate userId planId destinationId => exact absurd rfl (hstart userId planId destinationId)
  | schedulePlan now plans plan rest scheduled => exact absurd rfl (hschedule now plans plan rest scheduled)
  | claimJob candidate =>
    simp only [jobStmt] at h
    split at h
    · cases h
      exact hs
    · cases h
      refine hs.setStatus fun _ job hjob => Or.inl ?_
      simp only [Bool.and_eq_true, decide_eq_true_eq] at hjob
      exact hjob.2
  | execute candidate =>
    simp only [jobStmt] at h
    split at h
    · cases h
      exact hs.of_jobs jobs_setTested
    · cases h
      exact hs
  | markSucceeded candidate =>
    cases h
    exact hs.setStatus nofun
  | markFailed candidate errorCode =>
    cases h
    refine OneBackup.of_jobs ?_ jobs_setTested
    exact hs.setStatus nofun
  | updateWrite id data =>
    simp only [jobStmt, writePlan] at h
    split at h
    · exact oneBackup_of_refused hs h
    · split at h
      · exact oneBackup_of_refused hs h
      · cases h
        exact hs.of_jobs rfl
  | _ =>
    -- the other statements write nothing
    simp only [jobStmt, updateFrom] at h
    repeat' split at h
    all_goals cases h <;> exact hs

theorem oneBackup_schedulePlan {now : Int} {plans rest : List BackupPlan} {plan : BackupPlan} {scheduled : Nat}
    (hs : OneBackup st) (h : schedulePlan env st now plans plan rest scheduled c = some (st', q)) :
    (!creates env st now plan || !st.jobs.rows.any (activeBackup plan.destinationId)) = true ↔ OneBackup st' := by
  unfold schedulePlan at h
  split at h
  · next hnone =>
    cases h
    exact iff_of_true (by simp [creates, hnone]) hs
  · next nextRunAt hnext =>
    split at h
    · next hdue =>
      cases h
      exact iff_of_true (by simp [creates, hdue]) (hs.of_jobs rfl)
    · next dueAt hdue =>
      split at h
      · cases h
      · next hid =>
        have hcreates : creates env st now plan = claims st plan dueAt := by simp [creates, hnext, hdue]
        rw [hcreates]
        rcases claimPlan_cases plan dueAt nextRunAt now (Bool.eq_false_iff.mpr hid) with
          ⟨hno, heq⟩ | ⟨hclaims, st₁, hcreated, heq⟩
        · rw [heq] at h
          cases h
          exact iff_of_true (by simp [hno]) hs
        · rw [heq] at h
          cases h
          have hs₁ : OneBackup (st.setNextRun (claimable plan.id (some dueAt)) nextRunAt fun _ => some now) :=
            hs.of_jobs rfl
          have hactive : activeBackup plan.destinationId (scheduledJob plan dueAt c) = true := by
            simp [activeBackup, scheduledJob]
          rw [← oneBackup_create_iff hs₁ hactive hcreated]
          simp [hclaims, Store.setNextRun]

/-- **One step.** The condition says whether destinations have at most one backup after it. -/
theorem oneBackup_step {s t : JobSys} {l : JobLabel} (hs : OneBackup s.store) (h : jobStep env s l = some t) :
    findsNoBackup env s l = true ↔ OneBackup t.store := by
  cases l with
  | start call =>
    rw [Interleave.step_start h]
    exact iff_of_true rfl hs
  | exec i c =>
    obtain ⟨p, st, q, hp, hq, rfl⟩ := Interleave.step_exec h
    simp only [findsNoBackup, hp]
    cases p with
    | startCreate userId planId destinationId =>
      obtain ⟨st', hcreated, heq⟩ := Option.map_eq_some_iff.mp hq
      cases heq
      exact oneBackup_create_iff hs (by simp [activeBackup, manualJob]) hcreated
    | schedulePlan now plans plan rest scheduled => exact oneBackup_schedulePlan hs hq
    | _ => exact iff_of_true rfl (oneBackup_stmt hs (fun _ _ _ h => by cases h) (fun _ _ _ _ _ h => by cases h) hq)

/-- **Destinations have at most one backup throughout a run exactly if every new one finds none.** -/
theorem one_backup_iff {ls : List JobLabel} {t : JobSys} (hs : OneBackup st)
    (hr : Runs.run (jobStep env) (jobInit st) ls = some t) :
    Runs.Throughout (jobStep env) (fun s => OneBackup s.store) (jobInit st) ls ↔
      Runs.Along (jobStep env) (fun s l => findsNoBackup env s l = true) (jobInit st) ls :=
  Runs.throughout_iff_along (I := fun s => OneBackup s.store) (fun _ _ _ hs h => oneBackup_step hs h) hs hr

/-! ## Manual starts -/

namespace Demo

def destination : BackupDestination := ⟨"destination", .local, true, none⟩

/-- One destination without plans and jobs. -/
def noJobs : Store where
  destinations := .single destination
  plans := .empty
  jobs := .empty
  scheduledOnce := scheduledOnce_nil

def chosen (jobId : String) (now : Int) : JobChoice := ⟨now, jobId, true, ""⟩

def startBackup : JobLabel := .start (.startBackupJob "admin" (.destination "destination"))

/-- The second start is refused, the third one comes after the worker. -/
def oneAfterTheOther : List JobLabel :=
  [startBackup, .exec 0 (chosen "" 0), .exec 0 (chosen "" 0), .exec 0 (chosen "first" 0),
    startBackup, .exec 1 (chosen "" 1), .exec 1 (chosen "" 1),
    .start .processNextJob, .exec 2 (chosen "" 2), .exec 2 (chosen "" 2), .exec 2 (chosen "" 3), .exec 2 (chosen "" 4),
    startBackup, .exec 3 (chosen "" 5), .exec 3 (chosen "" 5), .exec 3 (chosen "second" 5)]

/-- Both look for a backup before one of them creates its own. -/
def atTheSameTime : List JobLabel :=
  [startBackup, startBackup, .exec 0 (chosen "" 0), .exec 1 (chosen "" 0), .exec 0 (chosen "" 0), .exec 1 (chosen "" 0),
    .exec 0 (chosen "first" 0), .exec 1 (chosen "second" 0)]

def twoActive (s : JobSys) : Bool :=
  s.store.jobs.rows.any fun job => s.store.jobs.rows.any fun other =>
    activeBackup "destination" job && activeBackup "destination" other && job.id != other.id

end Demo

theorem oneBackup_noJobs : OneBackup Demo.noJobs := fun _ h => nomatch h

theorem one_backup_one_after_the_other : Runs.Throughout (jobStep Demo.january) (fun s => OneBackup s.store)
    (jobInit Demo.noJobs) Demo.oneAfterTheOther := by
  have hrun : (Runs.run (jobStep Demo.january) (jobInit Demo.noJobs) Demo.oneAfterTheOther).isSome := by
    decide +kernel
  obtain ⟨t, ht⟩ := Option.isSome_iff_exists.mp hrun
  exact (one_backup_iff oneBackup_noJobs ht).mpr (by decide +kernel)

theorem two_backups_started : ∃ t, Runs.run (jobStep Demo.january) (jobInit Demo.noJobs) Demo.atTheSameTime = some t ∧
    OneBackup Demo.noJobs ∧ ¬ OneBackup t.store := by
  have hrun : (Runs.run (jobStep Demo.january) (jobInit Demo.noJobs) Demo.atTheSameTime).any Demo.twoActive := by
    decide +kernel
  obtain ⟨t, ht, htwo⟩ := (Option.any_eq_true _ _).mp hrun
  refine ⟨t, ht, oneBackup_noJobs, fun hone => ?_⟩
  obtain ⟨job, hjob, hother⟩ := List.any_eq_true.mp htwo
  obtain ⟨other, hother, hactive⟩ := List.any_eq_true.mp hother
  simp only [Bool.and_eq_true, bne_iff_ne] at hactive
  exact hactive.2 (hone job hjob other hother "destination" hactive.1.1 hactive.1.2)

end AdWiki.Backups
