import AdWiki.Backups.JobQueue
import Mathlib

/-!
# The scheduler advances the plans

A cycle takes the plans that are due one after the other: it claims the plan as it has read it, with a next run that is
later than the cycle, and creates the job of the time in the same transaction. Where the job is there already, the
transaction is undone and the plan stays due.

`covered` is the invariant of a cycle: a plan that was due when the cycle has read it has a next run later than the
cycle, or it is as it was read and the cycle still comes to it.

* `scheduledOnce_run`: a plan has one scheduled job for a time.
* `scheduler_advances`: the interleavings in which a cycle leaves no plan due.
* `stuck_by_update`: an update that puts the plan back to the time of a job that is there.
-/

namespace AdWiki.Backups

variable {env : Env} {st st' : Store} {i : Nat} {p q : JobPoint} {c : JobChoice} {s t : JobSys} {l : JobLabel}
  {now : Int} {plans rest : List BackupPlan} {plan read : BackupPlan} {id : String} {nextRunAt : Option Int}

/-! ## What a cycle has still to do -/

def BackupPlan.due (now : Int) (plan : BackupPlan) : Bool := plan.nextRunAt.any (· ≤ now)

/-- With this next run in its row, a plan that the cycle has read as due is advanced, or the cycle comes to it. -/
def covered (now : Int) (plans rest : List BackupPlan) (id : String) (nextRunAt : Option Int) : Bool :=
  plans.all fun read => read.id != id || !read.due now || nextRunAt.any (now < ·) ||
    rest.any fun plan => plan = read && read.nextRunAt = nextRunAt

namespace JobPoint

def inFlight : JobPoint → Bool
  | .cycleEnded _ _ _ => false
  | .done _ => false
  | _ => true

/-- The plan with this next run is covered by the call, if that is a cycle. -/
def covers : JobPoint → String → Option Int → Bool
  | .schedulePlan now plans plan rest _ => covered now plans (plan :: rest)
  | .cycleEnded now plans _ => covered now plans []
  | _ => fun _ _ => true

end JobPoint

/-- The calls in flight cover the plan. -/
def coveredByAll (s : JobSys) (id : String) (nextRunAt : Option Int) : Bool :=
  s.calls.all fun p => !p.inFlight || p.covers id nextRunAt

/-- The scheduler's claim: the plan has a next run; where its row is as it was read, its job is not there, and the
cycles in flight cover it afterwards. The write of an update: the same for a row that it leaves enabled. -/
def keepsSchedule (env : Env) (s : JobSys) : JobLabel → Bool
  | .start _ => true
  | .exec i _ =>
    match s.calls[i]? with
    | some (.schedulePlan now _ plan _ _) =>
      match nextScheduledRun env plan.schedule now with
      | none => false
      | some next =>
        !(s.store.plans.rows.any (claimable plan.id plan.nextRunAt)) ||
          !(plan.nextRunAt.any fun dueAt => s.store.hasJob (some (plan.id, dueAt))) && coveredByAll s plan.id (some next)
    | some (.updateWrite id data) =>
      match data.nextRunAt with
      | none => true
      | some next =>
        nameTaken s.store id data ||
          s.store.plans.rows.all fun plan => plan.id != id || !(data.apply plan).enabled || coveredByAll s id next
    | _ => true

theorem covered_eq_true :
    covered now plans rest id nextRunAt = true ↔ ∀ read ∈ plans, read.id = id → read.due now = true →
    nextRunAt.any (now < ·) = true ∨ read ∈ rest ∧ read.nextRunAt = nextRunAt := by
  simp only [covered, List.all_eq_true, Bool.or_eq_true, bne_iff_ne, Bool.not_eq_true', List.any_eq_true,
    Bool.and_eq_true, decide_eq_true_eq]
  constructor
  · intro h read hread hid hdue
    rcases h read hread with ((hne | hnot) | hlater) | ⟨_, hrest, rfl, heq⟩
    · exact absurd hid hne
    · rw [hdue] at hnot
      cases hnot
    · exact Or.inl hlater
    · exact Or.inr ⟨hrest, heq⟩
  · intro h read hread
    by_cases hid : read.id = id
    · cases hdue : read.due now with
      | false => exact Or.inl (Or.inl (Or.inr rfl))
      | true =>
        rcases h read hread hid hdue with hlater | ⟨hrest, heq⟩
        · exact Or.inl (Or.inr hlater)
        · exact Or.inr ⟨read, hrest, rfl, heq⟩
    · exact Or.inl (Or.inl (Or.inl hid))

/-- A next run later than the cycle. -/
theorem covered_later {next : Int} (h : now < next) : covered now plans rest id (some next) = true :=
  covered_eq_true.mpr fun _ _ _ _ => Or.inl (decide_eq_true h)

/-- The loop leaves out only plans that are not due. -/
theorem covered_skip (h : covered now plans rest id nextRunAt = true) :
    covered now plans (skip now rest) id nextRunAt = true := by
  rw [covered_eq_true] at h ⊢
  intro read hread hid hdue
  rcases h read hread hid hdue with hlater | ⟨hrest, heq⟩
  · exact Or.inl hlater
  · refine Or.inr ⟨?_, heq⟩
    rw [← List.takeWhile_append_dropWhile (p := fun plan : BackupPlan => plan.nextRunAt.any (now < ·))
      (l := rest)] at hrest
    rcases List.mem_append.mp hrest with hpassed | hleft
    · have hlater := List.mem_takeWhile_imp hpassed
      obtain ⟨dueAt, hsome, hle⟩ := (Option.any_eq_true _ _).mp hdue
      rw [hsome] at hlater
      simp only [Option.any_some, decide_eq_true_eq] at hlater hle
      omega
    · exact hleft

theorem covers_loop {scheduled : Nat} (h : covered now plans rest id nextRunAt = true) :
    (loop now plans rest scheduled).covers id nextRunAt = true := by
  have hskip := covered_skip h
  unfold loop
  split
  · next hnil =>
    rw [hnil] at hskip
    exact hskip
  · next hcons =>
    rw [hcons] at hskip
    exact hskip

/-! ## One statement -/

namespace JobPoint

/-- No cycle with plans in hand, and no update at its write. -/
def idle : JobPoint → Bool
  | .schedulePlan _ _ _ _ _ => false
  | .cycleEnded _ _ _ => false
  | .updateWrite _ _ => false
  | _ => true

/-- An update that sets `enabled` sets the next run. -/
def Complete : JobPoint → Prop
  | .updateWrite _ data => data.nextRunAt = none → data.enabled = none
  | _ => True

end JobPoint

/-- The invariant of a call: the enabled plans are covered by it. -/
structure Serves (st : Store) (p : JobPoint) : Prop where
  covers : ∀ row ∈ st.plans, row.enabled = true → p.covers row.id row.nextRunAt = true
  complete : p.Complete

theorem Serves.of_idle (h : p.idle = true) : Serves st p := by
  cases p with
  | schedulePlan now plans plan rest scheduled => cases h
  | cycleEnded now plans result => cases h
  | updateWrite id data => cases h
  | _ => exact ⟨fun _ _ _ => rfl, trivial⟩

theorem Serves.of_loop {scheduled : Nat}
    (h : ∀ row ∈ st.plans, row.enabled = true → covered now plans rest row.id row.nextRunAt = true) :
    Serves st (loop now plans rest scheduled) := by
  refine ⟨fun row hrow henabled => covers_loop (h row hrow henabled), ?_⟩
  unfold loop
  split
  · trivial
  · trivial

/-- The enabled plans after a statement are enabled plans from before, with their next run, or all calls in flight cover
them. -/
def KeepsPlans (s : JobSys) (st : Store) : Prop :=
  ∀ row' ∈ st.plans, row'.enabled = true →
    (∃ row ∈ s.store.plans, row.enabled = true ∧ row.id = row'.id ∧ row.nextRunAt = row'.nextRunAt) ∨
      coveredByAll s row'.id row'.nextRunAt = true

theorem KeepsPlans.of_plans (h : st.plans = s.store.plans) : KeepsPlans s st :=
  fun row hrow henabled => Or.inl ⟨row, h ▸ hrow, henabled, rfl, rfl⟩

theorem KeepsPlans.serves (h : KeepsPlans s st) (hp : s.calls[i]? = some p) (hflight : p.inFlight = true)
    (hserves : Serves s.store p) : Serves st p := by
  refine ⟨fun row' hrow' henabled => ?_, hserves.complete⟩
  rcases h row' hrow' henabled with ⟨row, hrow, hwas, hid, hnext⟩ | hall
  · rw [← hid, ← hnext]
    exact hserves.covers row hrow hwas
  · have := List.all_eq_true.mp hall p (List.mem_of_getElem? hp)
    simpa [hflight] using this

theorem claimable_eq_true :
    claimable id nextRunAt plan = true ↔ plan.id = id ∧ plan.enabled = true ∧ plan.nextRunAt = nextRunAt := by
  simp [claimable, and_assoc]

/-- The plan that the cycle is at is left to it only in a row that it can claim. -/
theorem covered_of_not_claimable {row : BackupPlan} (henabled : row.enabled = true)
    (hnot : claimable plan.id plan.nextRunAt row = false)
    (h : covered now plans (plan :: rest) row.id row.nextRunAt = true) :
    covered now plans rest row.id row.nextRunAt = true := by
  rw [covered_eq_true] at h ⊢
  intro read hread hid hdue
  rcases h read hread hid hdue with hlater | ⟨hrest, heq⟩
  · exact Or.inl hlater
  · rcases List.mem_cons.mp hrest with rfl | hrest
    · rw [claimable_eq_true.mpr ⟨hid.symm, henabled, heq.symm⟩] at hnot
      cases hnot
    · exact Or.inr ⟨hrest, heq⟩

/-- The rows that the cycle claims get its next run. -/
theorem setNextRun_keeps {next : Int} {lastRunAt : BackupPlan → Option Int}
    (hplans : st.plans = (s.store.setNextRun (claimable plan.id plan.nextRunAt) next lastRunAt).plans)
    (hall : s.store.plans.rows.any (claimable plan.id plan.nextRunAt) = true → coveredByAll s plan.id (some next) = true)
    (hlt : now < next)
    (hinv : ∀ row ∈ s.store.plans, row.enabled = true → covered now plans (plan :: rest) row.id row.nextRunAt = true) :
    KeepsPlans s st ∧ ∀ row ∈ st.plans, row.enabled = true → covered now plans rest row.id row.nextRunAt = true := by
  have hrows : ∀ row' ∈ st.plans, row'.enabled = true →
      (∃ row ∈ s.store.plans, claimable plan.id plan.nextRunAt row = true ∧ row'.id = plan.id ∧
        row'.nextRunAt = some next) ∨
        row' ∈ s.store.plans ∧ claimable plan.id plan.nextRunAt row' = false := by
    intro row' hrow' _
    rw [hplans] at hrow'
    rcases Rows.of_mem_updateMany hrow' with ⟨hrow, hnot⟩ | ⟨row, hrow, hclaim, rfl⟩
    · exact Or.inr ⟨hrow, hnot⟩
    · exact Or.inl ⟨row, hrow, hclaim, (claimable_eq_true.mp hclaim).1, rfl⟩
  constructor
  · intro row' hrow' henabled
    rcases hrows row' hrow' henabled with ⟨row, hrow, hclaim, hid, hnext⟩ | ⟨hrow, -⟩
    · rw [hid, hnext]
      exact Or.inr (hall (List.any_eq_true.mpr ⟨row, hrow, hclaim⟩))
    · exact Or.inl ⟨row', hrow, henabled, rfl, rfl⟩
  · intro row' hrow' henabled
    rcases hrows row' hrow' henabled with ⟨-, -, -, -, hnext⟩ | ⟨hrow, hnot⟩
    · rw [hnext]
      exact covered_later hlt
    · exact covered_of_not_claimable henabled hnot (hinv row' hrow henabled)

/-- Without a job in the way, the claim misses only where no row is as it was read. -/
theorem not_claimable_of_claims {dueAt : Int} (hfree : st.hasJob (some (plan.id, dueAt)) = false)
    (h : claims st plan dueAt = false) : st.plans.rows.any (claimable plan.id (some dueAt)) = false := by
  have hle : st.plans.rows.countP (claimable plan.id (some dueAt)) ≤ 1 :=
    Rows.countP_le_one st.plans.unique fun a _ b _ ha hb =>
      (claimable_eq_true.mp ha).1.trans (claimable_eq_true.mp hb).1.symm
  have hne : st.plans.rows.countP (claimable plan.id (some dueAt)) ≠ 1 := by
    simpa [claims, hfree] using h
  rw [List.any_eq_false]
  intro row hrow hclaim
  have := List.countP_pos_iff.mpr ⟨row, hrow, hclaim⟩
  omega

/-- **The body of the loop.** The other cycles keep what they have, and the cycle goes on with the rest. -/
theorem schedulePlan_spec {scheduled : Nat} (hp : s.calls[i]? = some (.schedulePlan now plans plan rest scheduled))
    (hkeeps : keepsSchedule env s (.exec i c) = true)
    (hinv : ∀ row ∈ s.store.plans, row.enabled = true → covered now plans (plan :: rest) row.id row.nextRunAt = true)
    (h : schedulePlan env s.store now plans plan rest scheduled c = some (st', q)) :
    KeepsPlans s st' ∧ (∀ row ∈ st'.plans, row.enabled = true → covered now plans rest row.id row.nextRunAt = true) ∧
      ∃ n, q = loop now plans rest n := by
  simp only [keepsSchedule, hp] at hkeeps
  unfold schedulePlan at h
  split at h
  · next hnone =>
    rw [hnone] at hkeeps
    cases hkeeps
  · next next hnext =>
    have hlt := lt_nextScheduledRun hnext
    simp only [hnext, Bool.or_eq_true, Bool.not_eq_true', Bool.and_eq_true] at hkeeps
    have hall : s.store.plans.rows.any (claimable plan.id plan.nextRunAt) = true →
        coveredByAll s plan.id (some next) = true := by
      intro hany
      rcases hkeeps with hno | ⟨-, hall⟩
      · rw [hno] at hany
        cases hany
      · exact hall
    split at h
    · next hdue =>
      cases h
      rw [← hdue]
      obtain ⟨hkept, hcovered⟩ := setNextRun_keeps rfl hall hlt hinv
      exact ⟨hkept, hcovered, scheduled, rfl⟩
    · next dueAt hdue =>
      split at h
      · cases h
      · next hid =>
        rcases claimPlan_cases plan dueAt next now (Bool.eq_false_iff.mpr hid) with ⟨hno, heq⟩ |
          ⟨hclaims, st₁, hcreated, heq⟩
        · rw [heq] at h
          cases h
          have hnot : s.store.plans.rows.any (claimable plan.id plan.nextRunAt) = false := by
            rcases hkeeps with hno | ⟨hfree, -⟩
            · exact hno
            · rw [hdue] at hfree ⊢
              exact not_claimable_of_claims hfree hno
          refine ⟨KeepsPlans.of_plans rfl, fun row hrow henabled => ?_, scheduled, rfl⟩
          exact covered_of_not_claimable henabled (Bool.eq_false_iff.mpr (List.any_eq_false.mp hnot row hrow))
            (hinv row hrow henabled)
        · rw [heq] at h
          cases h
          obtain ⟨-, -, hplans, -⟩ := createJob_eq_some hcreated
          rw [← hdue] at hplans
          obtain ⟨hkept, hcovered⟩ := setNextRun_keeps hplans hall hlt hinv
          exact ⟨hkept, hcovered, scheduled + 1, rfl⟩

/-- The plans that a cycle has read are the enabled ones, as they are. -/
theorem covered_read {order : BackupPlan → BackupPlan → Prop} [DecidableRel order] {row : BackupPlan}
    (hrow : row ∈ st.plans) :
    covered now ((st.plans.rows.filter (·.enabled)).insertionSort order)
      ((st.plans.rows.filter (·.enabled)).insertionSort order)
      row.id row.nextRunAt = true := by
  refine covered_eq_true.mpr fun read hread hid _ => Or.inr ⟨hread, ?_⟩
  rw [List.mem_insertionSort, List.mem_filter] at hread
  rw [Rows.eq_of_key st.plans.unique hread.1 hrow hid]

/-- An update that sets `enabled` sets the next run. -/
theorem planUpdate_enabled {existing : BackupPlan} {destination : BackupDestination} {input : UpdateBackupPlanInput}
    {data : BackupPlanUpdate} (h : planUpdate env existing destination input now = .ok data)
    (hnone : data.nextRunAt = none) :
    data.enabled = none := by
  simp only [planUpdate] at h
  split at h
  · cases h
  · split at h
    · cases h
    · split at h
      · next hinput =>
        cases h
        exact Option.isNone_iff_eq_none.mp hinput.1
      · split at h
        · split at h
          · cases h
          · cases h
            cases hnone
        · cases h
          cases hnone

theorem updateFrom_spec {existing : BackupPlan} {destination : BackupDestination} {input : UpdateBackupPlanInput}
    (h : updateFrom env st existing destination input c = some (st', q)) : st' = st ∧ Serves st' q := by
  unfold updateFrom at h
  split at h
  · cases h
    exact ⟨rfl, Serves.of_idle rfl⟩
  · next data hdata =>
    cases h
    exact ⟨rfl, fun _ _ _ => rfl, planUpdate_enabled hdata⟩

/-- A row that the update leaves enabled. -/
theorem writePlan_spec {data : BackupPlanUpdate} (hp : s.calls[i]? = some (.updateWrite id data))
    (hkeeps : keepsSchedule env s (.exec i c) = true) (hinv : data.nextRunAt = none → data.enabled = none)
    (h : writePlan s.store id data = some (st', q)) : KeepsPlans s st' ∧ q.idle = true := by
  simp only [keepsSchedule, hp] at hkeeps
  unfold writePlan at h
  split at h
  · cases h
    exact ⟨KeepsPlans.of_plans rfl, rfl⟩
  · split at h
    · cases h
      exact ⟨KeepsPlans.of_plans rfl, rfl⟩
    · next hname =>
      cases h
      refine ⟨fun row' hrow' henabled => ?_, rfl⟩
      rcases Rows.of_mem_updateMany hrow' with ⟨hrow, -⟩ | ⟨row, hrow, hid, rfl⟩
      · exact Or.inl ⟨row', hrow, henabled, rfl, rfl⟩
      · cases hnext : data.nextRunAt with
        | none =>
          refine Or.inl ⟨row, hrow, ?_, rfl, ?_⟩
          · simpa [BackupPlanUpdate.apply, hinv hnext] using henabled
          · simp [BackupPlanUpdate.apply, hnext]
        | some next =>
          simp only [hnext, Bool.eq_false_iff.mpr hname, Bool.false_or, List.all_eq_true, Bool.or_eq_true, bne_iff_ne,
            Bool.not_eq_true'] at hkeeps
          right
          rcases hkeeps row hrow with (hne | hdisabled) | hall
          · exact absurd (of_decide_eq_true hid) hne
          · rw [hdisabled] at henabled
            cases henabled
          · have hrowId : (data.apply row).id = id := of_decide_eq_true hid
            have hrowNext : (data.apply row).nextRunAt = next := by simp [BackupPlanUpdate.apply, hnext]
            rw [hrowId, hrowNext]
            exact hall

/-- **One statement.** -/
theorem stmt_spec (hp : s.calls[i]? = some p) (hkeeps : keepsSchedule env s (.exec i c) = true)
    (hinv : p.inFlight = true → Serves s.store p) (h : jobStmt env s.store i p c = some (st', q)) :
    KeepsPlans s st' ∧ Serves st' q := by
  have hidle : st'.plans = s.store.plans → q.idle = true → KeepsPlans s st' ∧ Serves st' q :=
    fun hplans hidle => ⟨KeepsPlans.of_plans hplans, Serves.of_idle hidle⟩
  cases p with
  | readPlans now =>
    cases h
    exact ⟨KeepsPlans.of_plans rfl, Serves.of_loop fun row hrow _ => covered_read hrow⟩
  | schedulePlan now plans plan rest scheduled =>
    obtain ⟨hkept, hcovered, n, rfl⟩ := schedulePlan_spec hp hkeeps (hinv rfl).covers h
    exact ⟨hkept, Serves.of_loop hcovered⟩
  | updateRead id input =>
    simp only [jobStmt] at h
    repeat' split at h
    · cases h
      exact hidle rfl rfl
    · cases h
      exact hidle rfl rfl
    · cases h
      exact hidle rfl rfl
    · obtain ⟨rfl, hserves⟩ := updateFrom_spec h
      exact ⟨KeepsPlans.of_plans rfl, hserves⟩
  | updateDestination existing input destinationId =>
    simp only [jobStmt] at h
    split at h
    · cases h
      exact hidle rfl rfl
    · obtain ⟨rfl, hserves⟩ := updateFrom_spec h
      exact ⟨KeepsPlans.of_plans rfl, hserves⟩
  | updateWrite id data =>
    obtain ⟨hkept, hq⟩ := writePlan_spec hp hkeeps (hinv rfl).complete h
    exact ⟨hkept, Serves.of_idle hq⟩
  | startCreate userId planId destinationId =>
    obtain ⟨st₁, hcreated, heq⟩ := Option.map_eq_some_iff.mp h
    cases heq
    obtain ⟨-, -, hplans, -⟩ := createJob_eq_some hcreated
    exact hidle hplans rfl
  | execute candidate =>
    simp only [jobStmt] at h
    split at h
    · cases h
      exact hidle plans_setTested rfl
    · cases h
      exact hidle rfl rfl
  | markFailed candidate errorCode =>
    cases h
    exact hidle plans_setTested rfl
  | _ =>
    -- the other statements write no plan
    simp only [jobStmt] at h
    repeat' split at h
    all_goals cases h <;> exact hidle rfl rfl

/-! ## Runs -/

abbrev QueueInv (s : JobSys) : Prop :=
  Interleave.Inv (fun _ => True) (fun _ st p => JobPoint.inFlight p = true → Serves st p) s

theorem queueInv_step (hs : QueueInv s) (hkeeps : keepsSchedule env s l = true) (h : jobStep env s l = some t) :
    QueueInv t := by
  refine Interleave.inv_step_label (P := fun s l => keepsSchedule env s l = true) ?_ ?_ l hs hkeeps h
  · intro s i r _ _ _
    cases r with
    | _ => exact Serves.of_idle rfl
  · intro s i p c st q hs hkeeps hp hq
    obtain ⟨hkept, hserves⟩ := stmt_spec hp hkeeps (hs.calls i p hp) hq
    exact ⟨trivial, fun _ => hserves, fun j p' _ hp' hflight => hkept.serves hp' hflight (hs.calls j p' hp' hflight)⟩

theorem queueInv_run {ls : List JobLabel}
    (hkeeps : Runs.Along (jobStep env) (fun s l => keepsSchedule env s l = true) (jobInit st) ls)
    (hr : Runs.run (jobStep env) (jobInit st) ls = some s) : QueueInv s :=
  Runs.inv_run_along (fun _ _ _ hs hkeeps h => queueInv_step hs hkeeps h) ⟨trivial, fun _ _ h => by cases h⟩ hkeeps hr

/-- A plan has at most one scheduled job for a time. -/
def ScheduledOnce (st : Store) : Prop :=
  ∀ job ∈ st.jobs, ∀ other ∈ st.jobs, job.trigger = .scheduled → other.trigger = .scheduled → ∀ planId dueAt,
    job.planId = some planId → other.planId = some planId → job.scheduledFor = some dueAt →
      other.scheduledFor = some dueAt →
      job = other

theorem scheduledOnce_store (st : Store) : ScheduledOnce st := by
  intro job hjob other hother _ _ planId dueAt hplan hplan' hdue hdue'
  have hkey : job.scheduleKey = some (planId, dueAt) := by simp only [BackupJob.scheduleKey, hplan, hdue]
  have hkey' : other.scheduleKey = some (planId, dueAt) := by simp only [BackupJob.scheduleKey, hplan', hdue']
  exact st.scheduledOnce.eq hjob hother hkey hkey'

/-- Plans that a cycle has read as due and that are still enabled have a next run later than the cycle. -/
def Advanced (st : Store) (now : Int) (plans : List BackupPlan) : Prop :=
  ∀ read ∈ plans, read.due now = true → ∀ row ∈ st.plans, row.id = read.id → row.enabled = true →
    ∃ next, row.nextRunAt = some next ∧ now < next

/-- In every step of the run with which a cycle ends while no other call is in flight, the plans have advanced. -/
def Advances (env : Env) (s₀ : JobSys) (ls : List JobLabel) : Prop :=
  ∀ pre post i c s t now plans result, ls = pre ++ .exec i c :: post → Runs.run (jobStep env) s₀ pre = some s →
    jobStep env s (.exec i c) = some t → t.calls[i]? = some (.cycleEnded now plans result) →
      (∀ p ∈ t.calls, p.inFlight = false) → Advanced t.store now plans

theorem advanced_of_covers {result : Except HttpError Nat}
    (h : ∀ row ∈ st.plans, row.enabled = true →
      (JobPoint.cycleEnded now plans result).covers row.id row.nextRunAt = true) :
    Advanced st now plans := by
  intro read hread hdue row hrow hid henabled
  rcases covered_eq_true.mp (h row hrow henabled) read hread hid.symm hdue with hlater | ⟨hnone, -⟩
  · obtain ⟨next, hnext, hlt⟩ := (Option.any_eq_true _ _).mp hlater
    exact ⟨next, hnext, of_decide_eq_true hlt⟩
  · cases hnone

/-- **The scheduler neither duplicates nor gets stuck.** No run has two scheduled jobs of a plan for one time; and in a
run whose claims and updates keep the schedule, a cycle that ends leaves no plan due that it has read as due. -/
theorem scheduler_advances {ls : List JobLabel}
    (hkeeps : Runs.Along (jobStep env) (fun s l => keepsSchedule env s l = true) (jobInit st) ls) :
    Runs.Throughout (jobStep env) (fun s => ScheduledOnce s.store) (jobInit st) ls ∧ Advances env (jobInit st) ls := by
  refine ⟨fun _ _ s _ _ => scheduledOnce_store s.store, ?_⟩
  rintro pre post i c s t now plans result rfl hpre hstep hended -
  obtain ⟨hbefore, hafter⟩ := Runs.along_append.mp hkeeps
  have hs := queueInv_run hbefore hpre
  have hlabel := (hafter s hpre).1
  obtain ⟨p, st', q, hp, hq, rfl⟩ := Interleave.step_exec hstep
  obtain ⟨-, hserves⟩ := stmt_spec hp hlabel (hs.calls i p hp) hq
  rcases Interleave.getElem?_set_cases hp hended with ⟨-, rfl⟩ | ⟨hne, -⟩
  · exact advanced_of_covers hserves.covers
  · exact absurd rfl hne

/-! ## A plan that stays due -/

namespace Demo

def dailyPlan : BackupPlan where
  id := "plan"
  name := "Daily"
  enabled := true
  schedule := daily
  retention := ⟨7, 4, 12⟩
  nextRunAt := some 16200000
  lastRunAt := none
  createdAt := 0
  destinationId := "destination"

/-- A plan that is due at 04:30 on the first of January. -/
def onePlan : Store where
  destinations := .single ⟨"destination", .local, true, none⟩
  plans := .single dailyPlan
  jobs := .empty
  scheduledOnce := scheduledOnce_nil

def jobAt (jobId : String) (now : Int) : JobChoice := ⟨now, jobId, true, ""⟩

def sameSchedule : JobLabel := .start (.updatePlan "plan" ⟨none, none, none, some daily, none⟩)

/-- Two cycles and an update, ten minutes before the run of the next day. -/
def twoCycles : List JobLabel :=
  [.start (.scheduleDuePlans 102000000), .start (.scheduleDuePlans 102000000), sameSchedule, .exec 0 (jobAt "" 0),
    .exec 1 (jobAt "" 0), .exec 2 (jobAt "" 102000010), .exec 1 (jobAt "first" 102000020), .exec 2 (jobAt "" 0),
    .exec 0 (jobAt "second" 102000030)]

/-- The update computes the next run before 04:30 and writes it after the cycle; the next cycle finds the job there. -/
def lateUpdate : List JobLabel :=
  [sameSchedule, .exec 0 (jobAt "" 16190000), .start (.scheduleDuePlans 16200000), .exec 1 (jobAt "" 0),
    .exec 1 (jobAt "first" 16200010), .exec 0 (jobAt "" 0), .start (.scheduleDuePlans 16230000), .exec 2 (jobAt "" 0)]

def collision : JobLabel := .exec 2 (jobAt "second" 16230010)

/-- The third call has ended as the last one, with a plan due. -/
def leftDue (s : JobSys) : Bool :=
  s.calls.all (fun p => !JobPoint.inFlight p) &&
    match (s.calls[2]? : Option JobPoint) with
    | some (.cycleEnded now plans _) =>
      plans.any fun read => read.due now &&
        s.store.plans.rows.any fun row => row.id = read.id && row.enabled && row.nextRunAt.all (· ≤ now)
    | _ => false

end Demo

theorem scheduler_advances_two_cycles :
    Runs.Throughout (jobStep Demo.january) (fun s => ScheduledOnce s.store) (jobInit Demo.onePlan) Demo.twoCycles ∧
      Advances Demo.january (jobInit Demo.onePlan) Demo.twoCycles :=
  scheduler_advances (by decide +kernel)

theorem stuck_by_update : ∃ s t, Runs.run (jobStep Demo.january) (jobInit Demo.onePlan) Demo.lateUpdate = some s ∧
    jobStep Demo.january s Demo.collision = some t ∧
    ¬ Advances Demo.january (jobInit Demo.onePlan) (Demo.lateUpdate ++ [Demo.collision]) := by
  have hrun : (Runs.run (jobStep Demo.january) (jobInit Demo.onePlan) Demo.lateUpdate).any fun s =>
      (jobStep Demo.january s Demo.collision).any Demo.leftDue := by
    decide +kernel
  obtain ⟨s, hs, hstep⟩ := (Option.any_eq_true _ _).mp hrun
  obtain ⟨t, ht, hleft⟩ := (Option.any_eq_true _ _).mp hstep
  refine ⟨s, t, hs, ht, fun hadvances => ?_⟩
  simp only [Demo.leftDue, Bool.and_eq_true, List.all_eq_true, Bool.not_eq_true'] at hleft
  obtain ⟨hended, hdue⟩ := hleft
  split at hdue
  · next now plans result hcall =>
    have hadvanced := hadvances Demo.lateUpdate [] 2 _ s t now plans result rfl hs ht hcall hended
    obtain ⟨read, hread, hrow⟩ := List.any_eq_true.mp hdue
    obtain ⟨hread', hrow⟩ := Bool.and_eq_true_iff.mp hrow
    obtain ⟨row, hrow, hbehind⟩ := List.any_eq_true.mp hrow
    simp only [Bool.and_eq_true, decide_eq_true_eq] at hbehind
    obtain ⟨next, hnext, hlt⟩ := hadvanced read hread hread' row hrow hbehind.1.1 hbehind.1.2
    have hle := hbehind.2
    simp only [hnext, Option.all_some, decide_eq_true_eq] at hle
    omega
  · cases hdue

end AdWiki.Backups
