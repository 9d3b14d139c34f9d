import AdWiki.Backups.Schedule
import AdWiki.Common.Http
import AdWiki.Lib.Table

/-!
# The tables of backups

Destinations, plans and the queue of jobs. A job of a plan is unique for the time it is scheduled for; jobs without a
plan or a time do not collide, as in an index with nulls.
-/

namespace AdWiki.Backups

inductive BackupDestinationType
  | local
  | sftp
  | s3
  deriving DecidableEq, Repr

inductive BackupJobOperation
  | backup
  | verify
  | connectionTest
  | restorePreflight
  deriving DecidableEq, Repr

inductive BackupJobTrigger
  | manual
  | scheduled
  deriving DecidableEq, Repr

inductive BackupJobStatus
  | queued
  | running
  | succeeded
  | failed
  | cancelled
  deriving DecidableEq, Repr

structure BackupDestination where
  id : String
  type : BackupDestinationType
  isEnabled : Bool
  lastTestSucceeded : Option Bool
  deriving DecidableEq, Repr

structure BackupRetention where
  daily : Nat
  weekly : Nat
  monthly : Nat
  deriving DecidableEq, Repr

structure BackupPlan where
  id : String
  name : String
  enabled : Bool
  schedule : BackupSchedule
  retention : BackupRetention
  nextRunAt : Option Int
  lastRunAt : Option Int
  createdAt : Int
  destinationId : String
  deriving DecidableEq, Repr

structure BackupJob where
  id : String
  operation : BackupJobOperation
  trigger : BackupJobTrigger
  status : BackupJobStatus
  scheduledFor : Option Int
  startedAt : Option Int
  finishedAt : Option Int
  errorCode : Option String
  createdAt : Int
  planId : Option String
  destinationId : Option String
  requestedById : Option String
  deriving DecidableEq, Repr

/-- The key in the index `@@unique([planId, scheduledFor])`. -/
def BackupJob.scheduleKey (job : BackupJob) : Option (String × Int) :=
  match job.planId, job.scheduledFor with
  | some planId, some scheduledFor => some (planId, scheduledFor)
  | _, _ => none

structure Store where
  destinations : Table BackupDestination.id
  plans : Table BackupPlan.id
  jobs : Table BackupJob.id
  scheduledOnce : jobs.UniqueOn BackupJob.scheduleKey

theorem scheduledOnce_nil : Table.UniqueOn (.empty : Table BackupJob.id) BackupJob.scheduleKey :=
  fun _ h => nomatch h

namespace Store

/-- The job of a plan for a time is there. -/
def hasJob (st : Store) (key : Option (String × Int)) : Bool :=
  key.isSome && st.jobs.rows.any fun job => job.scheduleKey = key

/-- The row is refused where it violates a unique index. -/
def createJob (st : Store) (job : BackupJob) : Option Store :=
  if hfree : st.hasJob job.scheduleKey = false then
    match hjobs : st.jobs.createMany [job] with
    | none => none
    | some jobs =>
      some { st with
        jobs := jobs
        scheduledOnce := by
          refine st.scheduledOnce.createMany (fun other hmem key hkey hother => ?_) hjobs
          simp only [hasJob, hkey, Option.isSome_some, Bool.true_and, List.any_eq_false, decide_eq_true_eq] at hfree
          exact hfree other hmem hother }
  else none

/-- An update of columns that are in no unique index. -/
def updateJobs (st : Store) (p : BackupJob → Bool) (f : BackupJob → BackupJob) (hid : ∀ job, (f job).id = job.id)
    (hkey : ∀ job, (f job).scheduleKey = job.scheduleKey) : Store :=
  { st with jobs := st.jobs.updateMany p f hid, scheduledOnce := st.scheduledOnce.updateMany hkey }

end Store

variable {st st' : Store} {job : BackupJob}

/-- A new job has an id of its own; the other tables stay. -/
theorem createJob_eq_some (h : st.createJob job = some st') : (∀ j, j ∈ st'.jobs ↔ j ∈ st.jobs ∨ j = job) ∧
    (∀ j ∈ st.jobs, j.id ≠ job.id) ∧ st'.plans = st.plans ∧ st'.destinations = st.destinations := by
  unfold Store.createJob at h
  split at h
  · split at h
    · cases h
    · next jobs hjobs =>
      cases h
      refine ⟨fun j => ?_, fun j hj => Table.key_ne_of_createMany hjobs hj (List.mem_singleton_self job), rfl, rfl⟩
      rw [← List.mem_singleton (a := j)]
      exact Table.mem_createMany hjobs
  · cases h

/-- With a new id, only the index on plan and time can refuse a job. -/
theorem createJob_isSome (hid : (st.jobs.find job.id).isSome = false) :
    (st.createJob job).isSome = true ↔ st.hasJob job.scheduleKey = false := by
  unfold Store.createJob
  split
  · next hfree =>
    refine iff_of_true ?_ hfree
    split
    · next hnone =>
      have hnew : ∀ j ∈ st.jobs, ∀ other ∈ [job], j.id ≠ other.id := by
        intro j hj other hother hsame
        rw [List.mem_singleton.mp hother] at hsame
        rw [Table.find_eq_some.mpr ⟨hj, hsame⟩] at hid
        cases hid
      obtain ⟨jobs, hjobs⟩ := Table.createMany_isSome (l := [job]) (List.nodup_singleton _) hnew
      rw [hjobs] at hnone
      cases hnone
    · rfl
  · next htaken => exact iff_of_false Bool.false_ne_true htaken

end AdWiki.Backups
