import AdWiki.Lib.FixedWindow
import AdWiki.Lib.OrderedMap
import Mathlib

/-!
# Rate limits

`consume` counts the calls of a token in fixed windows, in the memory of the process or in Redis. Times are milliseconds,
and a Redis key is there until the time at which it expires.

* `history_eq`: a store that mirrors the counters of all keys gives their answers.
* `rate_limits_bounded`: what this means for a history of calls.
-/

namespace AdWiki.Mcp.RateLimit

open FixedWindow (Bucket)

inductive Kind
  | read
  | write
  deriving DecidableEq, Repr

def Kind.text : Kind → String
  | .read => "read"
  | .write => "write"

/-- `McpProductionConfig`, as far as the limiter reads it; `positiveInt` reads nothing else than positive numbers. -/
structure Config where
  readRateLimit : Nat
  writeRateLimit : Nat
  rateLimitWindowMs : Int
  read_pos : 0 < readRateLimit
  write_pos : 0 < writeRateLimit
  window_pos : 0 < rateLimitWindowMs

structure McpRateLimitResult where
  allowed : Bool
  limit : Nat
  remaining : Nat
  retryAfterSeconds : Int
  deriving DecidableEq, Repr

structure Call where
  tokenId : String
  kind : Kind
  now : Int
  deriving DecidableEq, Repr

def key (tokenId : String) (kind : Kind) : String := "ad-wiki:mcp:rate:" ++ kind.text ++ ":" ++ tokenId

section Service

variable (config : Config)

def Config.limit (kind : Kind) : Nat :=
  match kind with
  | .write => config.writeRateLimit
  | .read => config.readRateLimit

/-- The answer for a count and the time that is left; `(ttl + 999) / 1000` is `Math.ceil(ttl / 1000)`. -/
def result (kind : Kind) (count : Nat) (ttl : Int) : McpRateLimitResult where
  allowed := decide (count ≤ config.limit kind)
  limit := config.limit kind
  remaining := config.limit kind - count
  retryAfterSeconds := max 1 ((ttl + 999) / 1000)

/-! ## The memory of the process -/

abbrev Memory := OrderedMap String Bucket

/-- The loop that deletes the buckets whose window is over, when there are too many. -/
def cleanUp (memory : Memory) (now : Int) : Memory :=
  if 10000 < memory.entries.length then
    ⟨memory.entries.filter fun entry => !decide (entry.2.resetAt ≤ now),
      memory.nodup.sublist (List.filter_sublist.map Prod.fst)⟩
  else memory

/-- `consume` without its last loop. -/
def count (memory : Memory) (call : Call) : Memory × McpRateLimitResult :=
  let key := key call.tokenId call.kind
  let bucket : Bucket := match memory.get? key with
    | none => ⟨1, call.now + config.rateLimitWindowMs⟩
    | some current =>
      if current.resetAt ≤ call.now then ⟨1, call.now + config.rateLimitWindowMs⟩
        else ⟨current.count + 1, current.resetAt⟩
  (memory.set key bucket, result config call.kind bucket.count (bucket.resetAt - call.now))

def consume (memory : Memory) (call : Call) : Memory × McpRateLimitResult :=
  let (memory, result) := count config memory call
  (cleanUp memory call.now, result)

/-! ## Redis -/

structure RedisEntry where
  value : Nat
  expireAt : Option Int
  deriving DecidableEq, Repr

abbrev Redis := String → Option RedisEntry

/-- A key that is there and has not expired. -/
def live (redis : Redis) (now : Int) (key : String) : Option RedisEntry :=
  (redis key).filter fun entry => entry.expireAt.all fun time => decide (now < time)

def incr (redis : Redis) (now : Int) (key : String) : Redis × Nat :=
  match live redis now key with
  | some entry => (Function.update redis key (some { entry with value := entry.value + 1 }), entry.value + 1)
  | none => (Function.update redis key (some ⟨1, none⟩), 1)

def pexpire (redis : Redis) (now : Int) (key : String) (ms : Int) : Redis :=
  match live redis now key with
  | some entry => Function.update redis key (some { entry with expireAt := some (now + ms) })
  | none => redis

def pttl (redis : Redis) (now : Int) (key : String) : Int :=
  match live redis now key with
  | some entry => match entry.expireAt with
    | some time => time - now
    | none => -1
  | none => -2

/-- The script that `consume` sends, which no other command comes between. -/
def script (redis : Redis) (now : Int) (key : String) (windowMs : Int) : Redis × Nat × Int :=
  let (redis, c) := incr redis now key
  let redis := if c = 1 then pexpire redis now key windowMs else redis
  (redis, c, pttl redis now key)

def consumeRedis (redis : Redis) (call : Call) : Redis × McpRateLimitResult :=
  let (redis, count, ttl) := script redis call.now (key call.tokenId call.kind) config.rateLimitWindowMs
  (redis, result config call.kind count (max 1 ttl))

/-! ## Histories -/

/-- The calls with their answers. -/
def history {σ : Type} (consume : σ → Call → σ × McpRateLimitResult) : σ → List Call → List (Call × McpRateLimitResult)
  | _, [] => []
  | state, call :: calls => (call, (consume state call).2) :: history consume (consume state call).1 calls

/-- A counter for each key, none of which is ever forgotten. -/
abbrev Counters := String → Option Bucket

/-- `consume` with a counter for each key. -/
def consumeCounters (counters : Counters) (call : Call) : Counters × McpRateLimitResult :=
  let bucket := FixedWindow.hit config.rateLimitWindowMs (counters (key call.tokenId call.kind)) call.now
  (Function.update counters (key call.tokenId call.kind) (some bucket),
    result config call.kind bucket.count (bucket.resetAt - call.now))

/-- The calls of a token of one kind. -/
def own (tokenId : String) (kind : Kind) (call : Call) : Bool := call.tokenId == tokenId && call.kind == kind

def times (tokenId : String) (kind : Kind) (calls : List Call) : List Int :=
  (calls.filter (own tokenId kind)).map Call.now

/-- The begin of the window of a call, after the earlier ones. -/
def windowStart (earlier : List Call) (call : Call) : Int :=
  FixedWindow.current config.rateLimitWindowMs
    (FixedWindow.startAfter config.rateLimitWindowMs (times call.tokenId call.kind earlier)) call.now

/-- What the limits promise for a history of calls. -/
structure Bounded (calls : List Call) : Prop where
  burst : ∀ tokenId kind t, ((history (consume config) .empty calls).filter fun entry =>
    decide (t ≤ entry.1.now ∧ entry.1.now ≤ t + config.rateLimitWindowMs) && entry.2.allowed &&
      own tokenId kind entry.1).length ≤
      2 * config.limit kind
  refused : ∀ earlier call answer later, history (consume config) .empty calls = earlier ++ (call, answer) :: later →
    answer.allowed = false →
      windowStart config (earlier.map Prod.fst) call ≤ call.now ∧
      call.now < windowStart config (earlier.map Prod.fst) call + config.rateLimitWindowMs ∧
      config.limit call.kind ≤ (earlier.filter fun entry => own call.tokenId call.kind entry.1 &&
        decide (windowStart config (earlier.map Prod.fst) call ≤ entry.1.now)).length
  cleanUp : history (consume config) .empty calls = history (count config) .empty calls
  isolated : ∀ tokenId kind, (history (consume config) .empty calls).filter (fun entry => own tokenId kind entry.1) =
    history (consume config) .empty (calls.filter (own tokenId kind))
  stores : history (consumeRedis config) (fun _ => none) calls = history (consume config) .empty calls

end Service

variable {config : Config} {tokenId tokenId' : String} {kind kind' : Kind} {call : Call} {calls : List Call}
  {memory : Memory}
  {redis : Redis} {counters : Counters} {now : Int}

theorem Config.limit_pos : 0 < config.limit kind := by
  cases kind with
  | read => exact config.read_pos
  | write => exact config.write_pos

theorem toList_append_four (a b c d : String) :
    (a ++ b ++ c ++ d).toList = a.toList ++ (b.toList ++ (c.toList ++ d.toList)) := by
  rw [String.toList_append, String.toList_append, String.toList_append, List.append_assoc, List.append_assoc]

theorem toList_text : kind.text.toList = if kind = .read then ['r', 'e', 'a', 'd'] else ['w', 'r', 'i', 't', 'e'] := by
  cases kind <;> rfl

/-- The keys of different tokens or kinds are different. -/
theorem key_inj : key tokenId kind = key tokenId' kind' ↔ tokenId = tokenId' ∧ kind = kind' := by
  constructor
  · intro h
    have hchars := (toList_append_four ..).symm.trans ((congrArg String.toList h).trans (toList_append_four ..))
    rw [List.append_cancel_left_eq, toList_text, toList_text] at hchars
    cases kind <;> cases kind' <;> simp [String.toList_inj] at hchars
    · exact ⟨hchars, rfl⟩
    · exact ⟨hchars, rfl⟩
  · rintro ⟨rfl, rfl⟩
    rfl

theorem own_iff : own tokenId kind call = true ↔ key call.tokenId call.kind = key tokenId kind := by
  rw [key_inj]
  simp [own]

/-! ## The stores -/

/-- A store that has the counters after every call gives their answers. -/
theorem history_eq {σ : Type} {consume : σ → Call → σ × McpRateLimitResult} {R : Int → σ → Counters → Prop}
    (hmono : ∀ {now now' state counters}, now ≤ now' → R now state counters → R now' state counters)
    (hstep : ∀ {state counters} (call : Call), R call.now state counters →
      (consume state call).2 = (consumeCounters config counters call).2 ∧
        R call.now (consume state call).1 (consumeCounters config counters call).1)
    {state : σ} (hR : R now state counters) (hnow : ∀ call ∈ calls, now ≤ call.now)
    (hcalls : calls.Pairwise fun a b => a.now ≤ b.now) :
    history consume state calls = history (consumeCounters config) counters calls := by
  induction calls generalizing now state counters with
  | nil => rfl
  | cons call calls ih =>
    obtain ⟨hlater, hcalls⟩ := List.pairwise_cons.mp hcalls
    obtain ⟨hanswer, hafter⟩ := hstep call (hmono (hnow call List.mem_cons_self) hR)
    rw [history, history, hanswer, ih hafter hlater hcalls]

/-- A store that has nothing in the beginning. -/
theorem history_start {σ : Type} {consume : σ → Call → σ × McpRateLimitResult} (R : Int → σ → Counters → Prop)
    (hmono : ∀ {now now' state counters}, now ≤ now' → R now state counters → R now' state counters)
    (hstep : ∀ {state counters} (call : Call), R call.now state counters →
      (consume state call).2 = (consumeCounters config counters call).2 ∧
        R call.now (consume state call).1 (consumeCounters config counters call).1)
    {state : σ} (hR : ∀ now, R now state fun _ => none) (hcalls : calls.Pairwise fun a b => a.now ≤ b.now) :
    history consume state calls = history (consumeCounters config) (fun _ => none) calls := by
  cases calls with
  | nil => rfl
  | cons call calls =>
    refine history_eq (R := R) hmono hstep (hR call.now) ?_ hcalls
    intro other hother
    rcases List.mem_cons.mp hother with rfl | hother
    · exact Int.le_refl _
    · exact (List.pairwise_cons.mp hcalls).1 other hother

def Holds (now : Int) (memory : Memory) (counters : Counters) : Prop :=
  ∀ key, FixedWindow.Mirrors now (memory.get? key) (counters key)

theorem Holds.mono {now' : Int} (hle : now ≤ now') (h : Holds now memory counters) : Holds now' memory counters :=
  fun key => (h key).mono hle

/-- The bucket of `count` is the next one of the counter. -/
theorem count_eq (h : Holds call.now memory counters) :
    count config memory call = (memory.set (key call.tokenId call.kind)
      (FixedWindow.hit config.rateLimitWindowMs (counters (key call.tokenId call.kind)) call.now),
        (consumeCounters config counters call).2) := by
  have hhit := @FixedWindow.Mirrors.hit config.rateLimitWindowMs _ _ _ (h (key call.tokenId call.kind))
  unfold count consumeCounters
  dsimp only
  rw [← hhit]
  cases memory.get? (key call.tokenId call.kind) with
  | none => rfl
  | some current => rfl

theorem holds_count (h : Holds call.now memory counters) :
    (count config memory call).2 = (consumeCounters config counters call).2 ∧
      Holds call.now (count config memory call).1 (consumeCounters config counters call).1 := by
  rw [count_eq h]
  refine ⟨rfl, fun k => ?_⟩
  dsimp only [consumeCounters]
  rw [OrderedMap.get?_set, Function.update_apply]
  split
  · exact Or.inl rfl
  · exact h k

/-- Only buckets whose window is over are deleted. -/
theorem holds_cleanUp (h : Holds now memory counters) : Holds now (cleanUp memory now) counters := by
  unfold cleanUp
  split
  · intro k
    have hget : ∀ bucket, (OrderedMap.get? ⟨memory.entries.filter fun entry => !decide (entry.2.resetAt ≤ now),
        memory.nodup.sublist (List.filter_sublist.map Prod.fst)⟩ k) = some bucket ↔
          memory.get? k = some bucket ∧ ¬bucket.resetAt ≤ now := by
      intro bucket
      rw [OrderedMap.get?_eq_some, OrderedMap.get?_eq_some]
      simp
    cases hk : memory.get? k with
    | none =>
      have hnone : OrderedMap.get? _ k = none := Option.eq_none_iff_forall_ne_some.mpr fun bucket hbucket => by
        rw [hget, hk] at hbucket
        cases hbucket.1
      rw [hnone, ← hk]
      exact h k
    | some bucket =>
      have hcounter : counters k = some bucket := by
        rcases h k with heq | ⟨hnone, -⟩
        · rw [← heq, hk]
        · rw [hk] at hnone
          cases hnone
      by_cases hover : bucket.resetAt ≤ now
      · refine Or.inr ⟨Option.eq_none_iff_forall_ne_some.mpr fun other hother => ?_, ?_⟩
        · obtain ⟨hsame, hnot⟩ := (hget other).mp hother
          rw [hk] at hsame
          cases hsame
          exact hnot hover
        · rintro other hother
          rw [hcounter] at hother
          cases hother
          exact hover
      · exact Or.inl (((hget bucket).mpr ⟨hk, hover⟩).trans hcounter.symm)
  · exact h

theorem holds_consume (h : Holds call.now memory counters) :
    (consume config memory call).2 = (consumeCounters config counters call).2 ∧
      Holds call.now (consume config memory call).1 (consumeCounters config counters call).1 :=
  ⟨(holds_count h).1, holds_cleanUp (holds_count h).2⟩

/-- The entries of Redis are the counters, with the end of the window as the expiry. -/
structure Stores (redis : Redis) (counters : Counters) : Prop where
  entry : ∀ key, redis key = (counters key).map fun bucket => ⟨bucket.count, some bucket.resetAt⟩
  count_pos : ∀ key bucket, counters key = some bucket → 0 < bucket.count

theorem live_eq_some {key : String} {value : Nat} {time : Int} (h : redis key = some ⟨value, some time⟩)
    (hnow : now < time) :
    live redis now key = some ⟨value, some time⟩ := by
  simp [live, h, hnow]

theorem live_eq_none {key : String} (h : ∀ entry, redis key = some entry → ∃ time ≤ now, entry.expireAt = some time) :
    live redis now key = none := by
  cases hentry : redis key with
  | none => simp [live, hentry]
  | some entry =>
    obtain ⟨time, hle, htime⟩ := h entry hentry
    simp [live, hentry, htime, hle]

/-- The script on a key that is not there. -/
theorem script_first {key : String} {windowMs : Int} (hwindow : 0 < windowMs) (h : live redis now key = none) :
    script redis now key windowMs = (Function.update redis key (some ⟨1, some (now + windowMs)⟩), 1, windowMs) := by
  have hincr : incr redis now key = (Function.update redis key (some ⟨1, none⟩), 1) := by rw [incr, h]
  have hlive : live (Function.update redis key (some ⟨1, none⟩)) now key = some ⟨1, none⟩ := by simp [live]
  have hexpire : pexpire (Function.update redis key (some ⟨1, none⟩)) now key windowMs =
      Function.update redis key (some ⟨1, some (now + windowMs)⟩) := by
    rw [pexpire, hlive]
    exact Function.update_idem _ _ _
  have httl : pttl (Function.update redis key (some ⟨1, some (now + windowMs)⟩)) now key = now + windowMs - now := by
    rw [pttl, live_eq_some (Function.update_self ..) (by omega)]
  rw [script, hincr]
  simp only [if_true, hexpire, httl, Prod.mk.injEq, true_and]
  omega

/-- The script on a key that is there. -/
theorem script_next {key : String} {windowMs : Int} {value : Nat} {time : Int} (hvalue : 0 < value) (hnow : now < time)
    (h : redis key = some ⟨value, some time⟩) :
    script redis now key windowMs = (Function.update redis key (some ⟨value + 1, some time⟩), value + 1, time - now) := by
  have hincr : incr redis now key = (Function.update redis key (some ⟨value + 1, some time⟩), value + 1) := by
    rw [incr, live_eq_some h hnow]
  have httl : pttl (Function.update redis key (some ⟨value + 1, some time⟩)) now key = time - now := by
    rw [pttl, live_eq_some (Function.update_self ..) hnow]
  have hnext : ¬value + 1 = 1 := by omega
  rw [script, hincr]
  simp only [hnext, if_false, httl]

/-- The script counts as the counters do: a key has expired when its window is over. -/
theorem script_eq (h : Stores redis counters) (key : String) {windowMs : Int} (hwindow : 0 < windowMs) {bucket : Bucket}
    (hbucket : FixedWindow.hit windowMs (counters key) now = bucket) :
    script redis now key windowMs =
      (Function.update redis key (some ⟨bucket.count, some bucket.resetAt⟩), bucket.count, bucket.resetAt - now) := by
  have hentry := h.entry key
  cases hcounter : counters key with
  | none =>
    rw [hcounter] at hentry hbucket
    subst hbucket
    rw [script_first hwindow (live_eq_none fun entry hmem => nomatch hentry.symm.trans hmem)]
    have httl : now + windowMs - now = windowMs := by omega
    simp only [FixedWindow.hit, httl]
  | some current =>
    rw [hcounter] at hentry hbucket
    by_cases hover : current.resetAt ≤ now
    · rw [FixedWindow.hit_over hover] at hbucket
      subst hbucket
      have hnone : live redis now key = none := by
        refine live_eq_none fun entry hmem => ?_
        rw [hentry] at hmem
        cases hmem
        exact ⟨_, hover, rfl⟩
      have httl : now + windowMs - now = windowMs := by omega
      rw [script_first hwindow hnone]
      simp only [httl]
    · rw [FixedWindow.hit_running (by omega)] at hbucket
      subst hbucket
      exact script_next (h.count_pos key current hcounter) (Int.not_le.mp hover) hentry

theorem stores_consumeRedis (h : Stores redis counters) :
    (consumeRedis config redis call).2 = (consumeCounters config counters call).2 ∧
      Stores (consumeRedis config redis call).1 (consumeCounters config counters call).1 := by
  have hscript := @script_eq _ _ call.now h (key call.tokenId call.kind) _ config.window_pos _ rfl
  have hlt := @FixedWindow.lt_resetAt_hit _ (counters (key call.tokenId call.kind)) call.now config.window_pos
  have hcount := @FixedWindow.count_hit_pos config.rateLimitWindowMs (counters (key call.tokenId call.kind)) call.now
  unfold consumeRedis consumeCounters
  rw [hscript]
  generalize FixedWindow.hit config.rateLimitWindowMs (counters (key call.tokenId call.kind)) call.now =
    bucket at hlt hcount ⊢
  refine ⟨?_, ?_, ?_⟩
  · dsimp only
    rw [Int.max_eq_right (by omega)]
  · intro k
    dsimp only
    rw [Function.update_apply, Function.update_apply]
    split
    · rfl
    · exact h.entry k
  · intro k other hother
    dsimp only at hother
    rw [Function.update_apply] at hother
    split at hother
    · cases hother
      exact hcount
    · exact h.count_pos k other hother

/-! ## Calls of one token and kind -/

/-- The answers to the calls of one token and kind are those that they have alone. -/
theorem filter_history {counters' : Counters} (h : counters (key tokenId kind) = counters' (key tokenId kind)) :
    (history (consumeCounters config) counters calls).filter (fun entry => own tokenId kind entry.1) =
      history (consumeCounters config) counters' (calls.filter (own tokenId kind)) := by
  induction calls generalizing counters counters' with
  | nil => rfl
  | cons call calls ih =>
    rw [history, List.filter_cons]
    dsimp only
    by_cases hown : own tokenId kind call = true
    · have hkey := own_iff.mp hown
      have hcounter : counters (key call.tokenId call.kind) = counters' (key call.tokenId call.kind) := by rw [hkey, h]
      have hafter : (consumeCounters config counters call).1 (key tokenId kind) =
          (consumeCounters config counters' call).1 (key tokenId kind) := by
        simp only [consumeCounters, hkey, Function.update_self, h]
      rw [if_pos hown, List.filter_cons_of_pos hown, history, ih hafter]
      simp only [consumeCounters, hcounter]
    · have hkey : key tokenId kind ≠ key call.tokenId call.kind := fun heq => hown (own_iff.mpr heq.symm)
      have hafter : (consumeCounters config counters call).1 (key tokenId kind) = counters' (key tokenId kind) := by
        exact (Function.update_of_ne hkey _ _).trans h
      rw [if_neg hown, List.filter_cons_of_neg hown, ih hafter]

/-- The calls in an interval that are allowed, if all are of one token and kind. -/
theorem length_allowed {first last : Int} (hown : ∀ call ∈ calls, own tokenId kind call = true) :
    ((history (consumeCounters config) counters calls).filter fun entry =>
      decide (first ≤ entry.1.now ∧ entry.1.now ≤ last) && entry.2.allowed).length =
        FixedWindow.admitted config.rateLimitWindowMs (config.limit kind) first last (counters (key tokenId kind))
          (calls.map Call.now) := by
  induction calls generalizing counters with
  | nil => rfl
  | cons call calls ih =>
    have hcall := hown call List.mem_cons_self
    have hkey := own_iff.mp hcall
    have hkind : call.kind = kind := (key_inj.mp hkey).2
    have hrest :=
      @ih (consumeCounters config counters call).1 fun other hother => hown other (List.mem_cons_of_mem _ hother)
    have hafter : (consumeCounters config counters call).1 (key tokenId kind) =
        some (FixedWindow.hit config.rateLimitWindowMs (counters (key tokenId kind)) call.now) := by
      simp only [consumeCounters, hkey, Function.update_self]
    rw [hafter] at hrest
    have hallowed : (consumeCounters config counters call).2.allowed =
        decide ((FixedWindow.hit config.rateLimitWindowMs (counters (key tokenId kind)) call.now).count ≤
          config.limit kind) := by
      unfold consumeCounters result
      dsimp only
      rw [hkey, hkind]
    rw [history, List.filter_cons, List.map_cons, FixedWindow.admitted, ← hrest]
    dsimp only
    rw [hallowed]
    by_cases hin : first ≤ call.now ∧ call.now ≤ last ∧
        (FixedWindow.hit config.rateLimitWindowMs (counters (key tokenId kind)) call.now).count ≤ config.limit kind
    · rw [if_pos (by simpa [and_assoc] using hin), if_pos hin, List.length_cons, Nat.add_comm]
    · rw [if_neg (by simpa [and_assoc] using hin), if_neg hin, Nat.zero_add]

/-- The counters after the calls. -/
def countersAfter (config : Config) (counters : Counters) (calls : List Call) : Counters :=
  calls.foldl (fun counters call => (consumeCounters config counters call).1) counters

theorem countersAfter_key : countersAfter config counters calls (key tokenId kind) =
    (times tokenId kind calls).foldl (fun bucket now => some (FixedWindow.hit config.rateLimitWindowMs bucket now))
      (counters (key tokenId kind)) := by
  induction calls generalizing counters with
  | nil => rfl
  | cons call calls ih =>
    have hcons : countersAfter config counters (call :: calls) =
      countersAfter config (consumeCounters config counters call).1 calls := rfl
    rw [hcons, ih, times, times]
    by_cases hown : own tokenId kind call = true
    · rw [List.filter_cons_of_pos hown, List.map_cons, List.foldl_cons]
      simp only [consumeCounters, own_iff.mp hown, Function.update_self]
    · have hkey : key tokenId kind ≠ key call.tokenId call.kind := fun heq => hown (own_iff.mpr heq.symm)
      rw [List.filter_cons_of_neg hown]
      simp only [consumeCounters, Function.update_of_ne hkey]

theorem map_history : (history (consumeCounters config) counters calls).map Prod.fst = calls := by
  induction calls generalizing counters with
  | nil => rfl
  | cons call calls ih => rw [history, List.map_cons, ih]

/-- The answer to a call of a history. -/
theorem history_answer {earlier later : List (Call × McpRateLimitResult)} {answer : McpRateLimitResult}
    (h : history (consumeCounters config) counters calls = earlier ++ (call, answer) :: later) :
    answer = (consumeCounters config (countersAfter config counters (earlier.map Prod.fst)) call).2 ∧
      calls = earlier.map Prod.fst ++ call :: later.map Prod.fst := by
  induction earlier generalizing counters calls with
  | nil =>
    cases calls with
    | nil => cases h
    | cons first calls =>
      obtain ⟨hfirst, hlater⟩ := List.cons.inj h
      cases hfirst
      exact ⟨rfl, by rw [← hlater, map_history]; rfl⟩
  | cons entry earlier ih =>
    cases calls with
    | nil => cases h
    | cons first calls =>
      obtain ⟨hfirst, hrest⟩ := List.cons.inj h
      obtain ⟨hanswer, hcalls⟩ := ih hrest
      subst hfirst
      exact ⟨hanswer, by rw [hcalls]; rfl⟩

/-- A call is refused only when its window has had its calls. -/
theorem refused_history {earlier later : List (Call × McpRateLimitResult)} {answer : McpRateLimitResult}
    (hcalls : calls.Pairwise fun a b => a.now ≤ b.now)
    (h : history (consumeCounters config) (fun _ => none) calls = earlier ++ (call, answer) :: later)
    (hrefused : answer.allowed = false) :
    windowStart config (earlier.map Prod.fst) call ≤ call.now ∧
      call.now < windowStart config (earlier.map Prod.fst) call + config.rateLimitWindowMs ∧
      config.limit call.kind ≤ (earlier.filter fun entry => own call.tokenId call.kind entry.1 &&
        decide (windowStart config (earlier.map Prod.fst) call ≤ entry.1.now)).length := by
  obtain ⟨hanswer, hsplit⟩ := history_answer h
  have htimes : (times call.tokenId call.kind (earlier.map Prod.fst) ++ [call.now]).Pairwise (· ≤ ·) := by
    rw [hsplit, List.pairwise_append] at hcalls
    obtain ⟨hearlier, -, hle⟩ := hcalls
    refine List.pairwise_append.mpr
      ⟨List.pairwise_map.mpr (hearlier.sublist List.filter_sublist), List.pairwise_singleton _ _, ?_⟩
    intro x hx y hy
    obtain ⟨other, hother, rfl⟩ := List.mem_map.mp hx
    obtain rfl := List.mem_singleton.mp hy
    exact hle other (List.mem_filter.mp hother).1 call List.mem_cons_self
  have hcounts := FixedWindow.counts_bucketAfter config.window_pos htimes
  have hbucket : countersAfter config (fun _ => none) (earlier.map Prod.fst) (key call.tokenId call.kind) =
      FixedWindow.bucketAfter config.rateLimitWindowMs (times call.tokenId call.kind (earlier.map Prod.fst)) :=
        countersAfter_key
  have hover : config.limit call.kind < (FixedWindow.hit config.rateLimitWindowMs
      (FixedWindow.bucketAfter config.rateLimitWindowMs (times call.tokenId call.kind (earlier.map Prod.fst)))
        call.now).count := by
    rw [hanswer] at hrefused
    simpa [consumeCounters, result, hbucket] using hrefused
  have hbegin := hcounts.start_le htimes
  refine ⟨hbegin, hcounts.before call.now (by simp), ?_⟩
  have hcount := hcounts.count_eq
  rw [List.countP_append, List.countP_singleton, if_pos (by simpa using hbegin)] at hcount
  have hlength : (earlier.filter fun entry => own call.tokenId call.kind entry.1 &&
      decide (windowStart config (earlier.map Prod.fst) call ≤ entry.1.now)).length =
        (times call.tokenId call.kind (earlier.map Prod.fst)).countP fun x =>
          decide (windowStart config (earlier.map Prod.fst) call ≤ x) := by
    rw [times, List.countP_map, List.countP_filter, List.countP_map, List.countP_eq_length_filter]
    congr 2
    funext entry
    exact Bool.and_comm _ _
  rw [hlength]
  unfold windowStart
  omega

/-! ## Histories from the start -/

theorem history_consume (hcalls : calls.Pairwise fun a b => a.now ≤ b.now) :
    history (consume config) .empty calls = history (consumeCounters config) (fun _ => none) calls :=
  history_start Holds Holds.mono (fun _ h => holds_consume h) (fun _ _ => Or.inl rfl) hcalls

theorem history_count (hcalls : calls.Pairwise fun a b => a.now ≤ b.now) :
    history (count config) .empty calls = history (consumeCounters config) (fun _ => none) calls :=
  history_start Holds Holds.mono (fun _ h => holds_count h) (fun _ _ => Or.inl rfl) hcalls

theorem history_consumeRedis (hcalls : calls.Pairwise fun a b => a.now ≤ b.now) :
    history (consumeRedis config) (fun _ => none) calls = history (consumeCounters config) (fun _ => none) calls :=
  history_start (fun _ => Stores) (fun _ h => h) (fun _ h => stores_consumeRedis h)
    (fun _ => ⟨fun _ => rfl, fun _ _ h => nomatch h⟩) hcalls

/-- **The limits are bounded both ways, and the same in both stores.** -/
theorem rate_limits_bounded (hcalls : calls.Pairwise fun a b => a.now ≤ b.now) : Bounded config calls where
  burst tokenId kind t := by
    have hown : (calls.filter (own tokenId kind)).Pairwise fun a b => a.now ≤ b.now := hcalls.sublist List.filter_sublist
    rw [history_consume hcalls, ← List.filter_filter, filter_history rfl, length_allowed fun _ hcall =>
      (List.mem_filter.mp hcall).2]
    exact FixedWindow.admitted_le config.window_pos Config.limit_pos (List.pairwise_map.mpr hown)
  refused := by
    rw [history_consume hcalls]
    exact fun _ _ _ _ h => refused_history hcalls h
  cleanUp := (history_consume hcalls).trans (history_count hcalls).symm
  isolated tokenId kind := by
    rw [history_consume hcalls, history_consume (hcalls.sublist List.filter_sublist), filter_history rfl]
  stores := (history_consumeRedis hcalls).trans (history_consume hcalls).symm

namespace Demo

/-- One write and two reads in a second. -/
def limits : Config := ⟨2, 1, 1000, by decide, by decide, by decide⟩

def traffic : List Call := [⟨"a", .write, 0⟩, ⟨"a", .write, 900⟩, ⟨"b", .read, 900⟩, ⟨"a", .write, 1000⟩]

end Demo

/-- The second write is refused; the third one begins the next window. -/
theorem rate_limits_bounded_demo :
    (history (consume Demo.limits) .empty Demo.traffic).map (fun entry => entry.2.allowed) =
    [true, false, true, true] ∧ Bounded Demo.limits Demo.traffic :=
  ⟨by decide +kernel, rate_limits_bounded (by decide)⟩

end AdWiki.Mcp.RateLimit
