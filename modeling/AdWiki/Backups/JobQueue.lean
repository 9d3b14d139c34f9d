import AdWiki.Backups.Tables
import AdWiki.Lib.Interleave
import Mathlib

/-!
# The queue of backup jobs

The scheduler (`scheduleDuePlans`), changes of a plan (`updatePlan`), manual starts (`startBackupJob`) and the workers
(`processNextJob`), any number of each on any number of instances. A statement or a `$transaction` block is atomic; the
calls interleave between them.

* `claimPlan_cases`: what the transaction of the scheduler does.
-/

namespace AdWiki.Backups

/-! ## Calls -/

/-- `none` is a field that is not given. -/
structure UpdateBackupPlanInput where
  name : Option String
  enabled : Option Bool
  destinationId : Option String
  schedule : Option BackupSchedule
  retention : Option BackupRetention
  deriving DecidableEq, Repr

/-- `nextRunAt` is `some none` where the column is set to null. -/
structure BackupPlanUpdate where
  name : Option String
  enabled : Option Bool
  destinationId : Option String
  schedule : Option BackupSchedule
  retention : Option BackupRetention
  nextRunAt : Option (Option Int)
  deriving DecidableEq, Repr

inductive StartBackupJobInput
  | destination (destinationId : String)
  | plan (planId : String)
  deriving DecidableEq, Repr

inductive JobCall
  | scheduleDuePlans (now : Int)
  | updatePlan (id : String) (input : UpdateBackupPlanInput)
  | startBackupJob (userId : String) (input : StartBackupJobInput)
  | processNextJob

inductive JobAnswer
  | plan (plan : BackupPlan)
  | job (job : BackupJob)
  | processed (found : Bool)
  deriving DecidableEq, Repr

/-- The next statement of a call, with what the call has in hand: a cycle has the plans it has read, the one it is at
and the rest. -/
inductive JobPoint
  | readPlans (now : Int)
  | schedulePlan (now : Int) (plans : List BackupPlan) (plan : BackupPlan) (rest : List BackupPlan) (scheduled : Nat)
  | cycleEnded (now : Int) (plans : List BackupPlan) (result : Except HttpError Nat)
  | updateRead (id : String) (input : UpdateBackupPlanInput)
  | updateDestination (existing : BackupPlan) (input : UpdateBackupPlanInput) (destinationId : String)
  | updateWrite (id : String) (data : BackupPlanUpdate)
  | startRead (userId : String) (input : StartBackupJobInput)
  | startCheck (userId : String) (planId : Option String) (destinationId : String)
  | startCreate (userId : String) (planId : Option String) (destinationId : String)
  | findJob
  | claimJob (candidate : BackupJob)
  | execute (candidate : BackupJob)
  | markSucceeded (candidate : BackupJob)
  | markFailed (candidate : BackupJob) (errorCode : String)
  | done (result : Except HttpError JobAnswer)

def jobEntry : JobCall → JobPoint
  | .scheduleDuePlans now => .readPlans now
  | .updatePlan id input => .updateRead id input
  | .startBackupJob userId input => .startRead userId input
  | .processNextJob => .findJob

/-- The clock, the id of a new job, whether what happens outside the tables goes well (the lock of a job, its
execution), and the code of a failure. -/
structure JobChoice where
  now : Int
  jobId : String
  accepted : Bool
  errorCode : String

def jobRefused (st : Store) (e : HttpError) : Option (Store × JobPoint) := some (st, .done (.error e))

/-! ## The scheduler -/

/-- The plans from the next one on that is due or has no next run. -/
def skip (now : Int) (plans : List BackupPlan) : List BackupPlan :=
  plans.dropWhile fun plan => plan.nextRunAt.any (now < ·)

/-- The next statement of the loop. -/
def loop (now : Int) (plans rest : List BackupPlan) (scheduled : Nat) : JobPoint :=
  match skip now rest with
  | [] => .cycleEnded now plans (.ok scheduled)
  | plan :: rest => .schedulePlan now plans plan rest scheduled

/-- `{ id, enabled: true, nextRunAt }` -/
def claimable (id : String) (nextRunAt : Option Int) (plan : BackupPlan) : Bool :=
  plan.id = id && plan.enabled && plan.nextRunAt = nextRunAt

namespace Store

def setNextRun (st : Store) (p : BackupPlan → Bool) (nextRunAt : Int) (lastRunAt : BackupPlan → Option Int) : Store :=
  { st with
    plans := st.plans.updateMany p (fun plan => { plan with nextRunAt := some nextRunAt, lastRunAt := lastRunAt plan })
      fun _ => rfl }

end Store

def scheduledJob (plan : BackupPlan) (dueAt : Int) (c : JobChoice) : BackupJob where
  id := c.jobId
  operation := .backup
  trigger := .scheduled
  status := .queued
  scheduledFor := some dueAt
  startedAt := none
  finishedAt := none
  errorCode := none
  createdAt := c.now
  planId := some plan.id
  destinationId := some plan.destinationId
  requestedById := none

/-- The transaction of the scheduler: `true` for a new job, `false` where the plan is no longer as it was read or the
job is there already, which undoes the claim. -/
def claimPlan (st : Store) (plan : BackupPlan) (dueAt nextRunAt now : Int) (c : JobChoice) : Store × Bool :=
  if st.plans.rows.countP (claimable plan.id (some dueAt)) ≠ 1 then (st, false)
  else
    match (st.setNextRun (claimable plan.id (some dueAt)) nextRunAt fun _ => some now).createJob
      (scheduledJob plan dueAt c) with
    | none => (st, false)
    | some st' => (st', true)

def noNextRun (schedule : BackupSchedule) : HttpError :=
  .internal ("Kein naechster Ausfuehrungszeitpunkt fuer " ++ schedule.timezone ++ " gefunden.")

section Statements

variable (env : Env)

/-- The body of the loop for one plan. -/
def schedulePlan (st : Store) (now : Int) (plans : List BackupPlan) (plan : BackupPlan) (rest : List BackupPlan)
    (scheduled : Nat) (c : JobChoice) : Option (Store × JobPoint) :=
  match nextScheduledRun env plan.schedule now with
  | none => some (st, .cycleEnded now plans (.error (noNextRun plan.schedule)))
  | some nextRunAt =>
    match plan.nextRunAt with
    | none =>
      some (st.setNextRun (claimable plan.id none) nextRunAt BackupPlan.lastRunAt, loop now plans rest scheduled)
    | some dueAt =>
      if (st.jobs.find c.jobId).isSome then none
      else
        let (st, created) := claimPlan st plan dueAt nextRunAt now c
        some (st, loop now plans rest (if created then scheduled + 1 else scheduled))

/-! ## Changes of a plan -/

def requiresConnectionTest (type : BackupDestinationType) : Bool := type = .sftp || type = .s3

/-- The checks of `updatePlan` and the update that it computes, at the time `now`. -/
def planUpdate (existing : BackupPlan) (destination : BackupDestination) (input : UpdateBackupPlanInput) (now : Int) :
    Except HttpError BackupPlanUpdate :=
  let finalEnabled := input.enabled.getD existing.enabled
  if finalEnabled ∧ destination.isEnabled = false then
    .error (.badRequest "Ein aktivierter Plan benötigt ein aktiviertes Backup-Ziel.")
  else if finalEnabled ∧ requiresConnectionTest destination.type ∧ destination.lastTestSucceeded ≠ some true then
    .error (.badRequest
      "Ein Plan mit externem Ziel kann erst nach einem erfolgreichen Verbindungstest aktiviert werden.")
  else
    let finalSchedule := input.schedule.getD existing.schedule
    let data (nextRunAt : Option (Option Int)) : BackupPlanUpdate :=
      ⟨input.name, input.enabled, input.destinationId, input.schedule, input.retention, nextRunAt⟩
    if input.enabled.isNone ∧ input.schedule.isNone then .ok (data none)
    else if finalEnabled then
      match nextScheduledRun env finalSchedule now with
      | none => .error (noNextRun finalSchedule)
      | some nextRunAt => .ok (data (some (some nextRunAt)))
    else .ok (data (some none))

def BackupPlanUpdate.apply (data : BackupPlanUpdate) (plan : BackupPlan) : BackupPlan :=
  { plan with
    name := data.name.getD plan.name
    enabled := data.enabled.getD plan.enabled
    destinationId := data.destinationId.getD plan.destinationId
    schedule := data.schedule.getD plan.schedule
    retention := data.retention.getD plan.retention
    nextRunAt := data.nextRunAt.getD plan.nextRunAt }

def updateFrom (st : Store) (existing : BackupPlan) (destination : BackupDestination) (input : UpdateBackupPlanInput)
    (c : JobChoice) : Option (Store × JobPoint) :=
  match planUpdate env existing destination input c.now with
  | .error e => jobRefused st e
  | .ok data => some (st, .updateWrite existing.id data)

/-- Another plan has the name. -/
def nameTaken (st : Store) (id : String) (data : BackupPlanUpdate) : Bool :=
  data.name.any fun name => st.plans.rows.any fun other => other.id != id && other.name = name

def writePlan (st : Store) (id : String) (data : BackupPlanUpdate) : Option (Store × JobPoint) :=
  match st.plans.find id with
  | none => jobRefused st .recordNotFound
  | some plan =>
    if nameTaken st id data then
      jobRefused st (.conflict "Ein Backup-Plan mit diesem Namen existiert bereits.")
    else
      some ({ st with plans := st.plans.updateMany (·.id = id) data.apply fun _ => rfl },
        .done (.ok (.plan (data.apply plan))))

/-! ## Manual starts -/

/-- The destination that `startBackupJob` reads, with the plan. -/
def startTarget (st : Store) : StartBackupJobInput → Except HttpError (Option String × BackupDestination)
  | .plan planId =>
    match st.plans.find planId with
    | none => .error (.notFound "Backup-Plan wurde nicht gefunden.")
    | some plan =>
      match st.destinations.find plan.destinationId with
      | none => .error (.notFound "Backup-Ziel wurde nicht gefunden.")
      | some destination => .ok (some plan.id, destination)
  | .destination destinationId =>
    match st.destinations.find destinationId with
    | none => .error (.notFound "Backup-Ziel wurde nicht gefunden.")
    | some destination => .ok (none, destination)

def checkStart (destination : BackupDestination) : Except HttpError Unit :=
  if destination.isEnabled = false then .error (.badRequest "Das Backup-Ziel ist deaktiviert.")
  else if requiresConnectionTest destination.type ∧ destination.lastTestSucceeded ≠ some true then
    .error (.badRequest "Das externe Backup-Ziel muss vor der ersten Sicherung erfolgreich getestet werden.")
  else .ok ()

/-- A backup of the destination that waits or runs. -/
def activeBackup (destinationId : String) (job : BackupJob) : Bool :=
  job.destinationId = some destinationId && job.operation = .backup && (job.status = .queued || job.status = .running)

def manualJob (userId : String) (planId : Option String) (destinationId : String) (c : JobChoice) : BackupJob where
  id := c.jobId
  operation := .backup
  trigger := .manual
  status := .queued
  scheduledFor := none
  startedAt := none
  finishedAt := none
  errorCode := none
  createdAt := c.now
  planId := planId
  destinationId := some destinationId
  requestedById := some userId

/-! ## Workers -/

/-- The operations that a worker takes. -/
def workerOperations : List BackupJobOperation := [.backup, .connectionTest, .restorePreflight]

/-- The first of the jobs that wait, by their creation. -/
def nextJob (st : Store) : Option BackupJob :=
  ((st.jobs.rows.filter fun job => job.status = .queued && workerOperations.contains job.operation).insertionSort
    fun left right => left.createdAt ≤ right.createdAt).head?

namespace Store

def setStatus (st : Store) (p : BackupJob → Bool) (status : BackupJobStatus)
    (startedAt finishedAt : BackupJob → Option Int) (errorCode : BackupJob → Option String) : Store :=
  st.updateJobs p
    (fun job => { job with
      status := status, startedAt := startedAt job, finishedAt := finishedAt job, errorCode := errorCode job })
    (fun _ => rfl) fun _ => rfl

/-- The result of a connection test in the row of the destination. -/
def setTested (st : Store) (candidate : BackupJob) (succeeded : Bool) : Store :=
  if candidate.operation = .connectionTest then
    { st with
      destinations := st.destinations.updateMany (fun destination => candidate.destinationId = some destination.id)
        (fun destination => { destination with lastTestSucceeded := some succeeded }) fun _ => rfl }
  else st

end Store

/-! ## One statement -/

def jobStmt (st : Store) (_ : Nat) (p : JobPoint) (c : JobChoice) : Option (Store × JobPoint) :=
  match p with
  | .readPlans now =>
    let plans := (st.plans.rows.filter (·.enabled)).insertionSort fun left right => left.createdAt ≤ right.createdAt
    some (st, loop now plans plans 0)
  | .schedulePlan now plans plan rest scheduled => schedulePlan env st now plans plan rest scheduled c
  | .updateRead id input =>
    match st.plans.find id with
    | none => jobRefused st (.notFound "Backup-Plan wurde nicht gefunden.")
    | some existing =>
      match input.destinationId with
      | some destinationId => some (st, .updateDestination existing input destinationId)
      | none =>
        match st.destinations.find existing.destinationId with
        | none => jobRefused st .recordNotFound
        | some destination => updateFrom env st existing destination input c
  | .updateDestination existing input destinationId =>
    match st.destinations.find destinationId with
    | none => jobRefused st (.badRequest "Das ausgewählte Backup-Ziel existiert nicht.")
    | some destination => updateFrom env st existing destination input c
  | .updateWrite id data => writePlan st id data
  | .startRead userId input =>
    match startTarget st input with
    | .error e => jobRefused st e
    | .ok (planId, destination) =>
      match checkStart destination with
      | .error e => jobRefused st e
      | .ok _ => some (st, .startCheck userId planId destination.id)
  | .startCheck userId planId destinationId =>
    if st.jobs.rows.any (activeBackup destinationId) then
      jobRefused st (.conflict "Für dieses Ziel läuft bereits ein Backup-Auftrag.")
    else some (st, .startCreate userId planId destinationId)
  | .startCreate userId planId destinationId =>
    (st.createJob (manualJob userId planId destinationId c)).map fun st =>
      (st, .done (.ok (.job (manualJob userId planId destinationId c))))
  | .findJob =>
    match nextJob st with
    | none => some (st, .done (.ok (.processed false)))
    | some candidate => if c.accepted then some (st, .claimJob candidate) else some (st, .done (.ok (.processed true)))
  | .claimJob candidate =>
    if st.jobs.rows.countP (fun job => job.id = candidate.id && job.status = .queued) ≠ 1 then
      some (st, .done (.ok (.processed true)))
    else
      some (st.setStatus (fun job => job.id = candidate.id && job.status = .queued) .running (fun _ => some c.now)
        BackupJob.finishedAt fun _ => none, .execute candidate)
  | .execute candidate =>
    if c.accepted then some (st.setTested candidate true, .markSucceeded candidate)
    else some (st, .markFailed candidate c.errorCode)
  | .markSucceeded candidate =>
    some (st.setStatus (·.id = candidate.id) .succeeded BackupJob.startedAt (fun _ => some c.now) BackupJob.errorCode,
      .done (.ok (.processed true)))
  | .markFailed candidate errorCode =>
    some ((st.setStatus (·.id = candidate.id) .failed BackupJob.startedAt (fun _ => some c.now)
      fun _ => some errorCode).setTested candidate false, .done (.ok (.processed true)))
  | .cycleEnded _ _ _ => none
  | .done _ => none

end Statements

abbrev JobSys := Interleave.Sys Store JobPoint

abbrev JobLabel := Interleave.Label JobCall JobChoice

abbrev jobStep (env : Env) : JobSys → JobLabel → Option JobSys := Interleave.step jobEntry (jobStmt env)

def jobInit (st : Store) : JobSys := ⟨st, []⟩

variable {st : Store} {c : JobChoice}

theorem mem_setStatus {job' : BackupJob} {p : BackupJob → Bool} {status : BackupJobStatus}
    {startedAt finishedAt : BackupJob → Option Int} {errorCode : BackupJob → Option String} :
    job' ∈ (st.setStatus p status startedAt finishedAt errorCode).jobs ↔ ∃ job ∈ st.jobs, job' = if p job then
      { job with
        status := status, startedAt := startedAt job, finishedAt := finishedAt job, errorCode := errorCode job }
      else job := Rows.mem_updateMany

theorem jobs_setTested {candidate : BackupJob} {succeeded : Bool} :
    (st.setTested candidate succeeded).jobs = st.jobs := by
  unfold Store.setTested
  split
  · rfl
  · rfl

theorem plans_setTested {candidate : BackupJob} {succeeded : Bool} :
    (st.setTested candidate succeeded).plans = st.plans := by
  unfold Store.setTested
  split
  · rfl
  · rfl

/-! ## The transaction of the scheduler -/

/-- The claim goes through: the plan is as it was read, and its job for the time is not there. -/
def claims (st : Store) (plan : BackupPlan) (dueAt : Int) : Bool :=
  st.plans.rows.countP (claimable plan.id (some dueAt)) = 1 && !st.hasJob (some (plan.id, dueAt))

theorem claimPlan_cases (plan : BackupPlan) (dueAt nextRunAt now : Int) (hid : (st.jobs.find c.jobId).isSome = false) :
    claims st plan dueAt = false ∧ claimPlan st plan dueAt nextRunAt now c = (st, false) ∨
      claims st plan dueAt = true ∧ ∃ st',
        (st.setNextRun (claimable plan.id (some dueAt)) nextRunAt fun _ => some now).createJob
          (scheduledJob plan dueAt c) =
          some st' ∧ claimPlan st plan dueAt nextRunAt now c = (st', true) := by
  unfold claimPlan claims
  split
  · next hchanged =>
    exact Or.inl ⟨by rw [decide_eq_false hchanged, Bool.false_and], rfl⟩
  · next hone =>
    rw [decide_eq_true (not_not.mp hone), Bool.true_and]
    have hid' : ((st.setNextRun (claimable plan.id (some dueAt)) nextRunAt fun _ => some now).jobs.find
      (scheduledJob plan dueAt c).id).isSome = false := hid
    have hsome := createJob_isSome hid'
    split
    · next hnone =>
      rw [hnone] at hsome
      have hthere : st.hasJob (some (plan.id, dueAt)) = true := by
        rw [← Bool.not_eq_false]
        exact fun hfree => nomatch hsome.mpr hfree
      exact Or.inl ⟨by rw [hthere]; rfl, rfl⟩
    · next st' hcreated =>
      rw [hcreated] at hsome
      have hfree : st.hasJob (some (plan.id, dueAt)) = false := hsome.mp rfl
      exact Or.inr ⟨by rw [hfree]; rfl, st', hcreated, rfl⟩

end AdWiki.Backups
