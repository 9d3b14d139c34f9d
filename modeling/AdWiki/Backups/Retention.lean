import AdWiki.Backups.Tables
import AdWiki.Lib.Buckets
import Mathlib

/-!
# Retention

`expiredBackupJobIds` keeps the newest backup and the newest one of each of the last days, weeks and months, and
`applyRetention` deletes the others after every backup of a plan. `keep` is a set of ids; the loops of `keepBuckets`
are the rules of `Buckets`, one for each unit (`rules`).

* `prune_eq_kept`: what is not expired is what the rules keep.
* `incremental_eq_prune`: deleting after each backup leaves what deleting once after the last one does.
* `applyRetention_artifacts`: when no call to the storage fails, `applyRetention` deletes what is expired.
-/

namespace AdWiki.Backups

structure RetentionCandidate where
  id : String
  createdAt : Int
  deriving DecidableEq, Repr

inductive BucketUnit
  | day
  | week
  | month
  deriving DecidableEq, Repr

/-- `getUTCFullYear` of the day that is so many days after 1970-01-01. -/
def utcYear (days : Int) : Int :=
  let shifted := days + 719468
  let era := shifted / 146097
  let dayOfEra := shifted - era * 146097
  let yearOfEra := (dayOfEra - dayOfEra / 1460 + dayOfEra / 36524 - dayOfEra / 146096) / 365
  let dayOfYear := dayOfEra - (365 * yearOfEra + yearOfEra / 4 - yearOfEra / 100)
  -- the years of this count begin in March
  yearOfEra + era * 400 + if dayOfYear ≥ 306 then 1 else 0

/-- The year and the number of an ISO week: those of its Thursday. -/
def isoWeek (year month day : Int) : Int × Int :=
  let thursday := utcDay year month day + 4 - isoWeekday year month day
  let weekYear := utcYear thursday
  (weekYear, (thursday - utcDay weekYear 1 1 + 7) / 7)

/-- The first of January 2027 is a Friday of the last week of 2026. -/
example : isoWeek 2027 1 1 = (2026, 53) := by decide

/-- `String(n).padStart(2, "0")` -/
def padStart (n : Int) : String :=
  let text := toString n
  if text.length < 2 then "0" ++ text else text

section Service

variable (env : Env) (timezone : String) (retention : BackupRetention)

def bucketKey (date : Int) (unit : BucketUnit) : String :=
  let parts := env.formatToParts timezone date
  match unit with
  | .month => toString parts.year ++ "-" ++ padStart parts.month
  | .day => toString parts.year ++ "-" ++ padStart parts.month ++ "-" ++ padStart parts.day
  | .week =>
    let week := isoWeek parts.year parts.month parts.day
    toString week.1 ++ "-W" ++ padStart week.2

/-- The loop of `keepBuckets` over the candidates that are left. -/
def keepLoop (unit : BucketUnit) (limit : Nat) : List RetentionCandidate → List String → List String → List String
  | [], _, keep => keep
  | candidate :: candidates, buckets, keep =>
    let key := bucketKey env timezone candidate.createdAt unit
    if key ∈ buckets ∨ limit ≤ buckets.length then keepLoop unit limit candidates buckets keep
    else keepLoop unit limit candidates (key :: buckets) (candidate.id :: keep)

def keepBuckets (candidates : List RetentionCandidate) (limit : Nat) (unit : BucketUnit) (keep : List String) :
    List String :=
  if limit = 0 then keep else keepLoop env timezone unit limit candidates [] keep

/-- The newest candidate first. -/
def sortCandidates (candidates : List RetentionCandidate) : List RetentionCandidate :=
  candidates.insertionSort fun left right => right.createdAt ≤ left.createdAt

def expiredBackupJobIds (candidates : List RetentionCandidate) : List String :=
  match sortCandidates candidates with
  | [] => []
  | newest :: older =>
    let sorted := newest :: older
    let keep := keepBuckets env timezone sorted retention.daily .day [newest.id]
    let keep := keepBuckets env timezone sorted retention.weekly .week keep
    let keep := keepBuckets env timezone sorted retention.monthly .month keep
    (sorted.filter fun candidate => candidate.id ∉ keep).map RetentionCandidate.id

/-- The backups that are left when the expired ones are deleted. -/
def prune (candidates : List RetentionCandidate) : List RetentionCandidate :=
  candidates.filter fun candidate => candidate.id ∉ expiredBackupJobIds env timezone retention candidates

/-- The backups that are left when the expired ones are deleted after each backup. -/
def incremental (backups : List RetentionCandidate) : List RetentionCandidate :=
  backups.foldl (fun survivors backup => prune env timezone retention (survivors ++ [backup])) []

/-! ## The worker -/

/-- A succeeded backup of the plan. -/
structure RetentionJob where
  id : String
  createdAt : Int
  artifactPath : Option String
  destinationId : Option String
  deriving DecidableEq, Repr

/-- The calls to the storage of a destination; `verify` returns the backup id of the manifest. -/
structure StorageCalls where
  verify : String → String → Option String
  delete : String → String → Bool

/-- The loop of `applyRetention`; the first failure ends it. -/
def deleteExpired (storage : StorageCalls) (expired : List String) : List RetentionJob → List RetentionJob
  | [] => []
  | job :: jobs =>
    if job.id ∉ expired then job :: deleteExpired storage expired jobs
    else
      match job.artifactPath, job.destinationId with
      | some artifactPath, some destinationId =>
        if storage.verify destinationId artifactPath = some job.id ∧ storage.delete destinationId artifactPath = true then
          { job with artifactPath := none } :: deleteExpired storage expired jobs
        else job :: jobs
      | _, _ => job :: deleteExpired storage expired jobs

/-- What `expiredBackupJobIds` is called with. -/
def candidatesOf (jobs : List RetentionJob) : List RetentionCandidate :=
  (jobs.filter fun job => job.artifactPath.isSome).map fun job => ⟨job.id, job.createdAt⟩

def applyRetention (storage : StorageCalls) (jobs : List RetentionJob) : List RetentionJob :=
  deleteExpired storage (expiredBackupJobIds env timezone retention (candidatesOf jobs)) jobs

/-! ## The rules -/

def rules : List (Buckets.Rule RetentionCandidate String) :=
  [⟨fun candidate => bucketKey env timezone candidate.createdAt .day, retention.daily⟩,
    ⟨fun candidate => bucketKey env timezone candidate.createdAt .week, retention.weekly⟩,
    ⟨fun candidate => bucketKey env timezone candidate.createdAt .month, retention.monthly⟩]

end Service

variable {env : Env} {timezone : String} {retention : BackupRetention} {unit : BucketUnit} {limit : Nat}
  {candidates backups : List RetentionCandidate} {candidate backup : RetentionCandidate}
    {buckets keep : List String} {id : String}

theorem mem_keepLoop : id ∈ keepLoop env timezone unit limit candidates buckets keep ↔ id ∈ keep ∨
    ∃ candidate ∈ Buckets.newest (fun candidate => bucketKey env timezone candidate.createdAt unit) limit
      buckets candidates,
      candidate.id = id := by
  induction candidates generalizing buckets keep with
  | nil => simp [keepLoop, Buckets.newest]
  | cons candidate candidates ih =>
    unfold keepLoop Buckets.newest
    dsimp only
    split
    · exact ih
    · rw [ih]
      simp only [List.mem_cons, exists_eq_or_imp]
      constructor
      · rintro ((rfl | h) | h)
        · exact Or.inr (Or.inl rfl)
        · exact Or.inl h
        · exact Or.inr (Or.inr h)
      · rintro (h | rfl | h)
        · exact Or.inl (Or.inr h)
        · exact Or.inl (Or.inl rfl)
        · exact Or.inr h

theorem mem_keepBuckets : id ∈ keepBuckets env timezone candidates limit unit keep ↔ id ∈ keep ∨
    ∃ candidate ∈ Buckets.newest (fun candidate => bucketKey env timezone candidate.createdAt unit) limit [] candidates,
      candidate.id = id := by
  unfold keepBuckets
  split
  · next hzero =>
    subst hzero
    rw [Buckets.newest_of_full (Nat.le_refl 0)]
    simp
  · exact mem_keepLoop

theorem perm_sortCandidates : (sortCandidates candidates).Perm candidates := List.perm_insertionSort _ _

/-- An id is expired if no rule keeps its candidate. -/
theorem mem_expiredBackupJobIds (hids : (candidates.map RetentionCandidate.id).Nodup) (hmem : candidate ∈ candidates) :
    candidate.id ∈ expiredBackupJobIds env timezone retention candidates ↔
      candidate ∉ Buckets.kept (rules env timezone retention) (sortCandidates candidates) := by
  have hsame : ∀ other ∈ sortCandidates candidates, other.id = candidate.id → other = candidate := fun other hother hid =>
    Rows.eq_of_key hids (perm_sortCandidates.subset hother) hmem hid
  have hmem' : candidate ∈ sortCandidates candidates := perm_sortCandidates.mem_iff.mpr hmem
  have hin : ∀ (key : RetentionCandidate → String) (limit : Nat),
      (∃ other ∈ Buckets.newest key limit [] (sortCandidates candidates), other.id = candidate.id) ↔
        candidate ∈ Buckets.newest key limit [] (sortCandidates candidates) := by
    intro key limit
    constructor
    · rintro ⟨other, hother, hid⟩
      rw [← hsame other (Buckets.mem_of_mem_newest hother) hid]
      exact hother
    · exact fun h => ⟨candidate, h, rfl⟩
  unfold expiredBackupJobIds
  split
  · next hnil =>
    rw [hnil] at hmem'
    cases hmem'
  · next newest older hsorted =>
    rw [hsorted] at hmem' hsame hin ⊢
    have hhead : candidate.id = newest.id ↔ newest = candidate :=
      ⟨fun hid => hsame newest List.mem_cons_self hid.symm, fun h => h ▸ rfl⟩
    simp only [List.mem_map, List.mem_filter, decide_eq_true_eq, mem_keepBuckets, Buckets.mem_kept, Buckets.Keeps,
      rules, List.head?_cons, Option.some.injEq, exists_eq_or_imp, List.mem_cons, List.not_mem_nil, or_false,
      exists_eq_left]
    constructor
    · rintro ⟨other, ⟨hother, hnot⟩, hid⟩
      rw [hsame other (List.mem_cons.mpr hother) hid, hin, hin, hin, hhead] at hnot
      rw [← or_assoc, ← or_assoc]
      exact hnot
    · intro hnot
      refine ⟨candidate, ⟨List.mem_cons.mp hmem', ?_⟩, rfl⟩
      rw [hin, hin, hin, hhead]
      rw [← or_assoc, ← or_assoc] at hnot
      exact hnot

/-- **What is not expired** is what the rules keep. -/
theorem mem_prune (hids : (candidates.map RetentionCandidate.id).Nodup) :
    candidate ∈ prune env timezone retention candidates ↔
      candidate ∈ Buckets.kept (rules env timezone retention) (sortCandidates candidates) := by
  rw [prune, List.mem_filter, decide_eq_true_eq]
  constructor
  · rintro ⟨hmem, hnot⟩
    by_contra hkept
    exact hnot ((mem_expiredBackupJobIds hids hmem).mpr hkept)
  · intro hkept
    have hmem : candidate ∈ candidates := perm_sortCandidates.subset (Buckets.kept_sublist.subset hkept)
    exact ⟨hmem, fun hexpired => (mem_expiredBackupJobIds hids hmem).mp hexpired hkept⟩

/-! ## A sequence of backups -/

/-- Backups in the order in which they were made. -/
structure InOrder (backups : List RetentionCandidate) : Prop where
  ids : (backups.map RetentionCandidate.id).Nodup
  times : (backups.map RetentionCandidate.createdAt).Pairwise (· < ·)

theorem InOrder.nodup (h : InOrder backups) : backups.Nodup := h.ids.of_map _

theorem InOrder.sublist (h : InOrder backups) (hsub : candidates.Sublist backups) : InOrder candidates :=
  ⟨h.ids.sublist (hsub.map _), h.times.sublist (hsub.map _)⟩

theorem InOrder.sortCandidates (h : InOrder backups) : sortCandidates backups = backups.reverse := by
  have htimes : backups.Pairwise fun left right => left.createdAt < right.createdAt := List.pairwise_map.mp h.times
  have hsorted : (Backups.sortCandidates backups).Pairwise fun left right => right.createdAt ≤ left.createdAt :=
    List.pairwise_insertionSort _ _
  refine List.Perm.eq_of_pairwise (fun a b ha hb hab hba => ?_) hsorted
    (List.pairwise_reverse.mpr (htimes.imp fun hlt => hlt.le)) (perm_sortCandidates.trans (List.reverse_perm _).symm)
  have ha' : a ∈ backups := perm_sortCandidates.subset ha
  have hb' : b ∈ backups := List.mem_reverse.mp hb
  -- times that are the same belong to the same backup
  have hnodup : (backups.map RetentionCandidate.createdAt).Nodup := h.times.imp fun hlt => hlt.ne
  exact Rows.eq_of_key hnodup ha' hb' (le_antisymm hba hab)

/-- Pruning keeps the backups that the rules keep, in their order. -/
theorem InOrder.prune_eq (h : InOrder backups) :
    prune env timezone retention backups = (Buckets.kept (rules env timezone retention) backups.reverse).reverse := by
  have hkept : ∀ candidate, candidate ∈ prune env timezone retention backups ↔
      Buckets.Keeps (rules env timezone retention) backups.reverse candidate := by
    intro candidate
    rw [mem_prune h.ids, h.sortCandidates, Buckets.mem_kept]
  rw [Buckets.kept, List.filter_reverse, List.reverse_reverse, prune]
  refine List.filter_congr fun candidate hmem => ?_
  rw [decide_eq_decide, ← hkept, prune, List.mem_filter, decide_eq_true_eq]
  exact (and_iff_right hmem).symm

theorem prune_sublist : (prune env timezone retention candidates).Sublist candidates := List.filter_sublist

/-- Pruning before the next backup is made does not matter. -/
theorem InOrder.prune_snoc (h : InOrder (backups ++ [backup])) :
    prune env timezone retention (prune env timezone retention backups ++ [backup]) =
      prune env timezone retention (backups ++ [backup]) := by
  have hold : InOrder backups := h.sublist (List.sublist_append_left _ _)
  have hsub : (prune env timezone retention backups ++ [backup]).Sublist (backups ++ [backup]) :=
    prune_sublist.append (List.Sublist.refl _)
  have hnodup : (backup :: backups.reverse).Nodup := by
    have := List.nodup_reverse.mpr h.nodup
    rwa [List.reverse_append] at this
  rw [(h.sublist hsub).prune_eq, h.prune_eq, hold.prune_eq, List.reverse_append, List.reverse_append,
    List.reverse_reverse]
  exact congrArg List.reverse (Buckets.kept_cons_kept hnodup)

theorem InOrder.prune_prune (h : InOrder backups) :
    prune env timezone retention (prune env timezone retention backups) = prune env timezone retention backups := by
  rw [(h.sublist prune_sublist).prune_eq, h.prune_eq, List.reverse_reverse,
    Buckets.kept_kept (List.nodup_reverse.mpr h.nodup)]

theorem InOrder.incremental_eq (h : InOrder backups) :
    incremental env timezone retention backups = prune env timezone retention backups := by
  induction backups using List.reverseRecOn with
  | nil => rfl
  | append_singleton backups backup ih =>
    have hold : InOrder backups := h.sublist (List.sublist_append_left _ _)
    rw [incremental, List.foldl_append, List.foldl_cons, List.foldl_nil, ← incremental, ih hold, h.prune_snoc]

/-- A backup that survives is not expired. -/
theorem expiredBackupJobIds_eq_nil (h : prune env timezone retention candidates = candidates) :
    expiredBackupJobIds env timezone retention candidates = [] := by
  refine List.eq_nil_iff_forall_not_mem.mpr fun id hid => ?_
  have hmem : ∃ candidate ∈ candidates, candidate.id = id := by
    unfold expiredBackupJobIds at hid
    split at hid
    · cases hid
    · next newest older hsorted =>
      obtain ⟨candidate, hcandidate, rfl⟩ := List.mem_map.mp hid
      refine ⟨candidate, perm_sortCandidates.subset ?_, rfl⟩
      rw [hsorted]
      exact (List.mem_filter.mp hcandidate).1
  obtain ⟨candidate, hcandidate, rfl⟩ := hmem
  have hkept := List.filter_eq_self.mp h candidate hcandidate
  exact absurd hid (by simpa using hkept)

theorem InOrder.newest_mem_prune {newest : RetentionCandidate} (h : InOrder backups)
    (hlast : backups.getLast? = some newest) :
    newest ∈ prune env timezone retention backups := by
  rw [h.prune_eq, List.mem_reverse, Buckets.mem_kept]
  exact Or.inl (by rw [List.head?_reverse, hlast])

/-- **Deleting what is expired after every backup** leaves the same backups as deleting it once after the last one; the
newest is among them, and none of them is expired. -/
theorem incremental_eq_prune (env : Env) (timezone : String) (retention : BackupRetention) (h : InOrder backups) :
    incremental env timezone retention backups = prune env timezone retention backups ∧
      (∀ newest, backups.getLast? = some newest → newest ∈ incremental env timezone retention backups) ∧
      expiredBackupJobIds env timezone retention (incremental env timezone retention backups) = [] := by
  rw [h.incremental_eq]
  refine ⟨rfl, fun newest hlast => h.newest_mem_prune hlast, ?_⟩
  exact expiredBackupJobIds_eq_nil h.prune_prune

namespace Demo

/-- Two backups on the first of January, then one on the second and one on the fifth. -/
def weekOfBackups : List RetentionCandidate :=
  [⟨"a", 3600000⟩, ⟨"b", 7200000⟩, ⟨"c", 90000000⟩, ⟨"d", 350000000⟩]

end Demo

/-- One backup a day for two days, and one a month. -/
theorem incremental_eq_prune_week :
    incremental Demo.january "UTC" ⟨2, 0, 1⟩ Demo.weekOfBackups = [⟨"c", 90000000⟩, ⟨"d", 350000000⟩] ∧
      expiredBackupJobIds Demo.january "UTC" ⟨2, 0, 1⟩
        (incremental Demo.january "UTC" ⟨2, 0, 1⟩ Demo.weekOfBackups) = [] := by
  have horder : InOrder Demo.weekOfBackups := ⟨by decide, by decide⟩
  obtain ⟨hprune, -, hnone⟩ := incremental_eq_prune Demo.january "UTC" ⟨2, 0, 1⟩ horder
  exact ⟨hprune.trans (by decide +kernel), hnone⟩

/-! ## The worker deletes what is expired -/

/-- No call to the storage fails, and every manifest has the id of its job. -/
def StorageCalls.Reliable (storage : StorageCalls) (jobs : List RetentionJob) : Prop :=
  ∀ job ∈ jobs, ∀ artifactPath destinationId, job.artifactPath = some artifactPath →
    job.destinationId = some destinationId →
    storage.verify destinationId artifactPath = some job.id ∧ storage.delete destinationId artifactPath = true

theorem deleteExpired_eq {storage : StorageCalls} {expired : List String} {jobs : List RetentionJob}
    (h : storage.Reliable jobs) : deleteExpired storage expired jobs =
      jobs.map fun job => if job.id ∈ expired ∧ job.destinationId.isSome then { job with artifactPath := none }
        else job := by
  induction jobs with
  | nil => rfl
  | cons job jobs ih =>
    have ih := ih fun other hother => h other (List.mem_cons_of_mem job hother)
    unfold deleteExpired
    rw [List.map_cons, ih]
    by_cases hexpired : job.id ∈ expired
    · rw [if_neg (not_not_intro hexpired)]
      cases hpath : job.artifactPath with
      | none =>
        have hsame : { job with artifactPath := none } = job := by rw [← hpath]
        simp [hsame]
      | some artifactPath =>
        cases hdestination : job.destinationId with
        | none => simp
        | some destinationId =>
          dsimp only
          rw [if_pos (h job List.mem_cons_self artifactPath destinationId hpath hdestination)]
          simp [hexpired]
    · rw [if_pos hexpired, if_neg fun hand => hexpired hand.1]

/-- **When no call fails**, the artifacts that are left are the backups that pruning leaves. -/
theorem applyRetention_artifacts {storage : StorageCalls} {jobs : List RetentionJob} (h : storage.Reliable jobs)
    (hdestination : ∀ job ∈ jobs, job.destinationId.isSome) :
    candidatesOf (applyRetention env timezone retention storage jobs) =
      prune env timezone retention (candidatesOf jobs) := by
  unfold applyRetention prune
  rw [deleteExpired_eq h]
  generalize expiredBackupJobIds env timezone retention (candidatesOf jobs) = expired
  unfold candidatesOf
  induction jobs with
  | nil => rfl
  | cons job jobs ih =>
    have ih := ih (fun other hother => h other (List.mem_cons_of_mem job hother))
      fun other hother => hdestination other (List.mem_cons_of_mem job hother)
    have hjob : job.destinationId.isSome := hdestination job List.mem_cons_self
    simp only [List.map_cons, List.filter_cons]
    by_cases hexpired : job.id ∈ expired
    · simp only [hexpired, hjob, and_self, if_true]
      by_cases hartifact : job.artifactPath.isSome = true
      · simp only [hartifact, if_true, List.map_cons, List.filter_cons, hexpired, not_true_eq_false, decide_false]
        simpa using ih
      · simp only [hartifact]
        simpa using ih
    · simp only [hexpired, false_and, if_false]
      by_cases hartifact : job.artifactPath.isSome = true
      · simp only [hartifact, if_true, List.map_cons, List.filter_cons, hexpired, not_false_eq_true, decide_true, ih]
      · simp only [hartifact]
        simpa using ih

end AdWiki.Backups
