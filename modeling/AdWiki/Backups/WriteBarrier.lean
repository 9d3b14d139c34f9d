import AdWiki.Common.Http
import AdWiki.Lib.Interleave

/-!
# The write barrier of a backup

Requests that write count themselves in Redis (`BackupWriteBarrierInterceptor`), and a worker that takes a snapshot
sets the barrier, waits until the counter is zero and releases the barrier (`BackupCoordinationService`). A script is
one atomic statement; the keys do not expire.

* `exec_of_stmt`: what one statement of a request or a worker does to barrier and counter.
* `write_barrier`: no request writes between drain and release, in any interleaving.
-/

namespace AdWiki.Backups

/-! ## Redis -/

structure Redis where
  writeBarrier : Option String
  activeWrites : Option Int
  deriving DecidableEq, Repr

def Redis.active (r : Redis) : Int := r.activeWrites.getD 0

/-- `ENTER_WRITE_SCRIPT` -/
def enterWriteScript (r : Redis) : Redis × Bool :=
  if r.writeBarrier.isSome then (r, false)
  else
    let r := { r with activeWrites := some (r.active + 1) }
    if r.writeBarrier.isSome then ({ r with activeWrites := some (r.active - 1) }, false) else (r, true)

/-- `RELEASE_SCRIPT` -/
def releaseScript (r : Redis) (token : String) : Redis :=
  if r.writeBarrier = some token then { r with writeBarrier := none } else r

/-! ## Requests and workers -/

/-- `mcpTool` is the name in a body that calls a tool. -/
structure Request where
  method : String
  path : String
  mcpTool : Option String
  deriving DecidableEq, Repr

def safeHttpMethods : List String := ["GET", "HEAD", "OPTIONS"]

def mcpWriteTools : List String := ["create_page", "update_page", "create_note", "update_note", "create_standard_draft"]

def isWriteRequest (request : Request) : Bool :=
  if safeHttpMethods.contains request.method.toUpper then false
  else if request.path = "/mcp" then request.mcpTool.any mcpWriteTools.contains
  else true

inductive Call
  | request (request : Request)
  /-- `createConsistentArtifact` -/
  | backup

inductive Outcome
  | passed
  | refused
  | answered
  | barrierBusy
  | writesDidNotDrain
  | artifact
  | artifactFailed
  deriving DecidableEq, Repr

/-- The next statement of a call, with what it has in hand. -/
inductive Point
  | intercept (request : Request)
  /-- Between `enterWrite` and `leaveWrite`. -/
  | handle
  /-- `leaveWrite` has found the counter below zero. -/
  | resetCounter
  | acquireBarrier
  | drain (token : String) (deadline : Time)
  | createArtifact (token : String)
  | releaseBarrier (token : String) (outcome : Outcome)
  | done (outcome : Outcome)
  deriving DecidableEq, Repr

def entry : Call → Point
  | .request request => .intercept request
  | .backup => .acquireBarrier

/-- The clock, a new token, and whether the artifact is created. -/
structure Choice where
  now : Time
  token : String
  created : Bool

def drainTimeout : Nat := 30000

/-- One statement of a call. -/
def stmt (r : Redis) (_ : Nat) (p : Point) (c : Choice) : Option (Redis × Point) :=
  match p with
  | .intercept request =>
    if isWriteRequest request then
      let (r, entered) := enterWriteScript r
      some (r, if entered then .handle else .done .refused)
    else some (r, .done .passed)
  | .handle =>
    let current := r.active - 1
    some ({ r with activeWrites := some current }, if current < 0 then .resetCounter else .done .answered)
  | .resetCounter => some ({ r with activeWrites := some 0 }, .done .answered)
  | .acquireBarrier =>
    if r.writeBarrier.isSome then some (r, .done .barrierBusy)
    else some ({ r with writeBarrier := some c.token }, .drain c.token (c.now + drainTimeout))
  | .drain token deadline =>
    if r.active > 0 then
      some (r, if c.now ≥ deadline then .releaseBarrier token .writesDidNotDrain else .drain token deadline)
    else some (r, .createArtifact token)
  | .createArtifact token => some (r, .releaseBarrier token (if c.created then .artifact else .artifactFailed))
  | .releaseBarrier token outcome => some (releaseScript r token, .done outcome)
  | .done _ => none

abbrev Sys := Interleave.Sys Redis Point

abbrev Label := Interleave.Label Call Choice

abbrev step : Sys → Label → Option Sys := Interleave.step entry stmt

def init : Sys := ⟨⟨none, none⟩, []⟩

/-- The token of a worker that has acquired the barrier and not released it. -/
def Point.token : Point → Option String
  | .drain token _ => some token
  | .createArtifact token => some token
  | .releaseBarrier token _ => some token
  | _ => none

/-- The worker has waited for the writes, and not released the barrier. -/
def Point.drained : Point → Bool
  | .createArtifact _ => true
  | .releaseBarrier _ outcome => outcome != .writesDidNotDrain
  | _ => false

/-- The request is between `enterWrite` and `leaveWrite`. -/
def Point.writes : Point → Bool
  | .handle => true
  | _ => false

/-- What the barrier is for, in one state. -/
structure Barrier (s : Sys) : Prop where
  quiet : ∀ (i j : Nat) (p q : Point), s.calls[i]? = some p → p.drained = true → s.calls[j]? = some q → q.writes = false
  held : ∀ (i : Nat) (p : Point) (token : String), s.calls[i]? = some p → p.token = some token →
    s.store.writeBarrier = some token
  one : ∀ (i j : Nat) (p q : Point), s.calls[i]? = some p → p.token.isSome = true → s.calls[j]? = some q →
    q.token.isSome = true → i = j
  counted : s.store.active = s.calls.countP Point.writes
  unreset : ∀ (i : Nat) (p : Point), s.calls[i]? = some p → p ≠ .resetCounter

variable {s t : Sys} {r r' : Redis} {i : Nat} {p q : Point} {c : Choice}

/-! ## One statement -/

/-- The second look at the barrier finds what the first one found. -/
theorem enterWriteScript_eq (r : Redis) : enterWriteScript r =
    if r.writeBarrier.isSome then (r, false) else ({ r with activeWrites := some (r.active + 1) }, true) := by
  unfold enterWriteScript
  split
  · rfl
  · next hfree => exact if_neg hfree

theorem writes_of_drained (h : p.drained = true) : p.writes = false := by
  cases p <;> first | rfl | cases h

theorem exists_token_of_drained (h : p.drained = true) : ∃ token, p.token = some token := by
  cases p <;> first | exact ⟨_, rfl⟩ | cases h

/-- What a statement does to the barrier. -/
inductive Holds (r : Redis) (p : Point) (r' : Redis) (q : Point) : Prop
  | kept (hbarrier : r'.writeBarrier = r.writeBarrier) (htoken : q.token = p.token)
  | acquired (hfree : r.writeBarrier = none) (hbarrier : r'.writeBarrier = q.token)
  | released (hheld : p.token.isSome = true) (htoken : q.token = none)

/-- What it does to the counter, and where a call writes or has waited for the writes. -/
structure Exec (r : Redis) (p : Point) (r' : Redis) (q : Point) : Prop where
  active : r'.active + p.writes.toNat = r.active + q.writes.toNat
  holds : Holds r p r' q
  enters : q.writes = true → r.writeBarrier = none
  drains : q.drained = true → p.drained = true ∨ r.active ≤ 0
  unreset : q ≠ .resetCounter

theorem exec_of_stmt (hactive : p.writes = true → 1 ≤ r.active) (hreset : p ≠ .resetCounter)
    (h : stmt r i p c = some (r', q)) : Exec r p r' q := by
  cases p with
  | intercept request =>
    simp only [stmt, enterWriteScript_eq] at h
    split at h
    · split at h
      · cases h
        exact ⟨rfl, .kept rfl rfl, nofun, nofun, nofun⟩
      · next hfree =>
        cases h
        exact ⟨by simp [Redis.active, Point.writes], .kept rfl rfl, fun _ => by simpa using hfree, nofun, nofun⟩
    · cases h
      exact ⟨rfl, .kept rfl rfl, nofun, nofun, nofun⟩
  | handle =>
    have hpos : ¬ r.active - 1 < 0 := by
      have := hactive rfl
      omega
    simp only [stmt, if_neg hpos] at h
    cases h
    exact ⟨by simp [Redis.active, Point.writes], .kept rfl rfl, nofun, nofun, nofun⟩
  | resetCounter => exact absurd rfl hreset
  | acquireBarrier =>
    simp only [stmt] at h
    split at h
    · cases h
      exact ⟨rfl, .kept rfl rfl, nofun, nofun, nofun⟩
    · next hfree =>
      cases h
      exact ⟨rfl, .acquired (by simpa using hfree) rfl, nofun, nofun, nofun⟩
  | drain token deadline =>
    simp only [stmt] at h
    split at h
    · split at h
      · cases h
        exact ⟨rfl, .kept rfl rfl, nofun, nofun, nofun⟩
      · cases h
        exact ⟨rfl, .kept rfl rfl, nofun, nofun, nofun⟩
    · next hzero =>
      cases h
      exact ⟨rfl, .kept rfl rfl, nofun, fun _ => Or.inr (Int.not_lt.mp hzero), nofun⟩
  | createArtifact token =>
    cases h
    exact ⟨rfl, .kept rfl rfl, nofun, fun _ => Or.inl rfl, nofun⟩
  | releaseBarrier token outcome =>
    cases h
    refine ⟨?_, .released rfl rfl, nofun, nofun, nofun⟩
    unfold releaseScript
    split
    · rfl
    · rfl
  | done outcome => cases h

/-! ## Every interleaving -/

theorem barrier_init : Barrier init where
  quiet i j p q hp := by simp [init] at hp
  held i p token hp := by simp [init] at hp
  one i j p q hp := by simp [init] at hp
  counted := rfl
  unreset i p hp := by simp [init] at hp

theorem Barrier.active (hs : Barrier s) (hp : s.calls[i]? = some p) (hwrites : p.writes = true) : 1 ≤ s.store.active := by
  have hpos : 0 < s.calls.countP Point.writes := List.countP_pos_iff.mpr ⟨p, List.mem_of_getElem? hp, hwrites⟩
  rw [hs.counted]
  omega

/-- Without active writes no request writes. -/
theorem Barrier.writes_eq_false (hs : Barrier s) (hactive : s.store.active ≤ 0) (hp : s.calls[i]? = some p) :
    p.writes = false := by
  rw [Bool.eq_false_iff]
  intro hwrites
  have := hs.active hp hwrites
  omega

theorem Barrier.start (hs : Barrier s) (call : Call) : Barrier ⟨s.store, s.calls ++ [entry call]⟩ := by
  have htoken : (entry call).token = none := by cases call <;> rfl
  have hdrained : (entry call).drained = false := by cases call <;> rfl
  have hwrites : (entry call).writes = false := by cases call <;> rfl
  constructor
  case quiet =>
    intro i j p q hp hd hq
    rcases Interleave.getElem?_append_cases hq with ⟨-, rfl⟩ | hq
    · exact hwrites
    · rcases Interleave.getElem?_append_cases hp with ⟨-, rfl⟩ | hp
      · rw [hdrained] at hd
        cases hd
      · exact hs.quiet i j p q hp hd hq
  case held =>
    intro i p token hp ht
    rcases Interleave.getElem?_append_cases hp with ⟨-, rfl⟩ | hp
    · rw [htoken] at ht
      cases ht
    · exact hs.held i p token hp ht
  case one =>
    intro i j p q hp hpt hq hqt
    rcases Interleave.getElem?_append_cases hp with ⟨-, rfl⟩ | hp
    · rw [htoken] at hpt
      cases hpt
    · rcases Interleave.getElem?_append_cases hq with ⟨-, rfl⟩ | hq
      · rw [htoken] at hqt
        cases hqt
      · exact hs.one i j p q hp hpt hq hqt
  case counted =>
    rw [List.countP_append, List.countP_singleton, hwrites]
    exact hs.counted
  case unreset =>
    intro i p hp
    rcases Interleave.getElem?_append_cases hp with ⟨-, rfl⟩ | hp
    · cases call <;> nofun
    · exact hs.unreset i p hp

theorem Barrier.exec (hs : Barrier s) (hp : s.calls[i]? = some p) (h : Exec s.store p r' q) :
    Barrier ⟨r', s.calls.set i q⟩ := by
  -- whoever holds the barrier besides the call keeps it
  have hothers : ∀ j p' token, j ≠ i → s.calls[j]? = some p' → p'.token = some token →
      r'.writeBarrier = some token ∧ q.token = none := by
    intro j p' token hj hp' htoken
    have hheld := hs.held j p' token hp' htoken
    have hmine : p.token = none := by
      by_contra hmine
      exact hj (hs.one j i p' p hp' (by rw [htoken]; rfl) hp (Option.isSome_iff_ne_none.mpr hmine))
    cases h.holds with
    | kept hbarrier hq => exact ⟨hbarrier.trans hheld, hq.trans hmine⟩
    | acquired hfree hbarrier =>
      rw [hfree] at hheld
      cases hheld
    | released hreleased hq =>
      rw [hmine] at hreleased
      cases hreleased
  constructor
  case quiet =>
    intro j k p₁ p₂ hp₁ hdrained hp₂
    -- nobody writes beside a drained worker, and the barrier keeps it so
    rcases Interleave.getElem?_set_cases hp hp₁ with ⟨rfl, rfl⟩ | ⟨hj, hold₁⟩
    · rcases Interleave.getElem?_set_cases hp hp₂ with ⟨rfl, rfl⟩ | ⟨-, hold₂⟩
      · exact writes_of_drained hdrained
      · rcases h.drains hdrained with hdrained | hzero
        · exact hs.quiet j k p p₂ hp hdrained hold₂
        · exact hs.writes_eq_false hzero hold₂
    · rcases Interleave.getElem?_set_cases hp hp₂ with ⟨rfl, rfl⟩ | ⟨-, hold₂⟩
      · rw [Bool.eq_false_iff]
        intro hwrites
        obtain ⟨token, htoken⟩ := exists_token_of_drained hdrained
        have hheld := hs.held j p₁ token hold₁ htoken
        rw [h.enters hwrites] at hheld
        cases hheld
      · exact hs.quiet j k p₁ p₂ hold₁ hdrained hold₂
  case held =>
    intro j p' token hp' htoken
    rcases Interleave.getElem?_set_cases hp hp' with ⟨rfl, rfl⟩ | ⟨hj, hp'⟩
    · cases h.holds with
      | kept hbarrier hq => exact hbarrier.trans (hs.held j p token hp (hq ▸ htoken))
      | acquired hfree hbarrier => exact hbarrier.trans htoken
      | released hreleased hq =>
        rw [hq] at htoken
        cases htoken
    · exact (hothers j p' token hj hp' htoken).1
  case one =>
    intro j k p₁ p₂ hp₁ ht₁ hp₂ ht₂
    obtain ⟨token₁, htoken₁⟩ := Option.isSome_iff_exists.mp ht₁
    obtain ⟨token₂, htoken₂⟩ := Option.isSome_iff_exists.mp ht₂
    rcases Interleave.getElem?_set_cases hp hp₁ with ⟨rfl, rfl⟩ | ⟨hj, hold₁⟩
    · rcases Interleave.getElem?_set_cases hp hp₂ with ⟨rfl, rfl⟩ | ⟨hk, hold₂⟩
      · rfl
      · rw [(hothers k p₂ token₂ hk hold₂ htoken₂).2] at htoken₁
        cases htoken₁
    · rcases Interleave.getElem?_set_cases hp hp₂ with ⟨rfl, rfl⟩ | ⟨hk, hold₂⟩
      · rw [(hothers j p₁ token₁ hj hold₁ htoken₁).2] at htoken₂
        cases htoken₂
      · exact hs.one j k p₁ p₂ hold₁ ht₁ hold₂ ht₂
  case counted =>
    have hcount := Interleave.countP_set (f := Point.writes) (q := q) hp
    have hactive := h.active
    have hcounted := hs.counted
    show r'.active = ((s.calls.set i q).countP Point.writes : Int)
    omega
  case unreset =>
    intro j p' hp'
    rcases Interleave.getElem?_set_cases hp hp' with ⟨rfl, rfl⟩ | ⟨-, hp'⟩
    · exact h.unreset
    · exact hs.unreset j p' hp'

theorem barrier_step {l : Label} (hs : Barrier s) (h : step s l = some t) : Barrier t := by
  cases l with
  | start call =>
    rw [Interleave.step_start h]
    exact hs.start call
  | exec i c =>
    obtain ⟨p, r', q, hp, hq, rfl⟩ := Interleave.step_exec h
    exact hs.exec hp (exec_of_stmt (hs.active hp) (hs.unreset i p hp) hq)

theorem barrier_run {ls : List Label} (h : Runs.run step init ls = some s) : Barrier s :=
  Runs.inv_run (fun _ _ _ hs h => barrier_step hs h) barrier_init h

/-- **The write barrier.** In every interleaving no request writes between the drain and the release, no second worker
acquires the barrier or releases that of the first, and the counter is the number of writing requests. -/
theorem write_barrier {ls : List Label} (h : Runs.run step init ls = some s) :
    (∀ (i j : Nat) (p q : Point), s.calls[i]? = some p → p.drained = true → s.calls[j]? = some q → q.writes = false) ∧
    (∀ (i : Nat) (p : Point) (token : String), s.calls[i]? = some p → p.token = some token →
      s.store.writeBarrier = some token ∧
        ∀ (j : Nat) (c : Choice) (t : Sys), j ≠ i → step s (.exec j c) = some t →
          t.store.writeBarrier = some token ∧ ∀ q, t.calls[j]? = some q → q.token = none) ∧
    s.store.active = s.calls.countP Point.writes := by
  have hs := barrier_run h
  refine ⟨hs.quiet, fun i p token hp htoken => ⟨hs.held i p token hp htoken, fun j c t hj hstep => ?_⟩, hs.counted⟩
  have ht := barrier_step hs hstep
  obtain ⟨p', r', q, hp', -, rfl⟩ := Interleave.step_exec hstep
  have hi : (s.calls.set j q)[i]? = some p := (Interleave.getElem?_set_ne hj).mpr hp
  refine ⟨ht.held i p token hi htoken, fun q' hq' => ?_⟩
  by_contra hholds
  exact hj (ht.one j i q' p hq' (Option.isSome_iff_ne_none.mpr hholds) hi (by rw [htoken]; rfl))

/-! ## A snapshot beside requests -/

namespace Demo

def choose (now : Time) : Choice := ⟨now, "token", true⟩

def update : Call := .request ⟨"PATCH", "/api/pages/1", none⟩

/-- The worker waits for a request that has entered; the next one is refused. -/
def snapshot : List Label :=
  [.start update, .exec 0 (choose 0), .start .backup, .exec 1 (choose 1), .start update, .exec 2 (choose 1),
    .exec 1 (choose 2), .exec 0 (choose 3), .exec 1 (choose 4)]

end Demo

theorem write_barrier_snapshot : ∃ s, Runs.run step init Demo.snapshot = some s ∧
    s.calls = [.done .answered, .createArtifact "token", .done .refused] ∧ s.store.active = 0 := by
  have hrun : (Runs.run step init Demo.snapshot).any fun s =>
      s.calls = [.done .answered, .createArtifact "token", .done .refused] := by
    decide +kernel
  obtain ⟨s, hs, hcalls⟩ := (Option.any_eq_true _ _).mp hrun
  have hcalls := of_decide_eq_true hcalls
  refine ⟨s, hs, hcalls, ?_⟩
  rw [(write_barrier hs).2.2, hcalls]
  rfl

end AdWiki.Backups
