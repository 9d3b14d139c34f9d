import Mathlib

/-!
# Fixed windows

A counter of calls with windows of one length: a call in a window is counted there, and a call outside of any window
begins the next one. A call is admitted if the count has not passed a limit.

* `admitted_le`: an interval as long as the window has at most twice the limit of admitted calls, wherever it lies.
* `counts_bucketAfter`: the count is the number of calls since the window has begun.
* `Mirrors.hit`: a store that forgets counters whose window is over counts like one that does not.
-/

namespace FixedWindow

/-- The calls in a window, and the time at which it is over. -/
structure Bucket where
  count : Nat
  resetAt : Int
  deriving DecidableEq, Repr

section Defs

variable (window : Int)

/-- The counter after one more call. -/
def hit : Option Bucket → Int → Bucket
  | none, now => ⟨1, now + window⟩
  | some bucket, now => if bucket.resetAt ≤ now then ⟨1, now + window⟩ else ⟨bucket.count + 1, bucket.resetAt⟩

/-- The counter after calls at these times. -/
def bucketAfter (times : List Int) : Option Bucket := times.foldl (fun bucket now => some (hit window bucket now)) none

/-- The begin of the window of a call, where the last window has begun at `start`. -/
def current (start : Option Int) (now : Int) : Int :=
  match start with
  | none => now
  | some start => if start + window ≤ now then now else start

/-- The begin of the window of the last call. -/
def startAfter (times : List Int) : Option Int := times.foldl (fun start now => some (current window start now)) none

/-- How many calls from `first` to `last` are admitted. -/
def admitted (limit : Nat) (first last : Int) : Option Bucket → List Int → Nat
  | _, [] => 0
  | bucket, now :: times =>
    (if first ≤ now ∧ now ≤ last ∧ (hit window bucket now).count ≤ limit then 1 else 0) +
      admitted limit first last (some (hit window bucket now)) times

end Defs

variable {window : Int} {limit : Nat} {bucket : Option Bucket} {times : List Int} {t now : Int}

theorem hit_over {b : Bucket} (h : b.resetAt ≤ now) : hit window (some b) now = ⟨1, now + window⟩ := if_pos h

theorem hit_running {b : Bucket} (h : now < b.resetAt) : hit window (some b) now = ⟨b.count + 1, b.resetAt⟩ :=
  if_neg (by omega)

theorem lt_resetAt_hit (hwindow : 0 < window) : now < (hit window bucket now).resetAt := by
  unfold hit
  split
  · exact Int.lt_add_of_pos_right now hwindow
  · split
    · exact Int.lt_add_of_pos_right _ hwindow
    · next hover => exact Int.not_le.mp hover

theorem count_hit_pos : 0 < (hit window bucket now).count := by
  unfold hit
  split
  · exact Nat.one_pos
  · split
    · exact Nat.one_pos
    · exact Nat.succ_pos _

/-! ## Bursts -/

/-- How many calls can still be admitted in the interval that begins at `t`: in the window that is running, and in the
next. -/
def room (window : Int) (limit : Nat) (t : Int) : Option Bucket → Nat
  | none => 2 * limit
  | some bucket =>
    if bucket.resetAt ≤ t then 2 * limit
    else if bucket.resetAt ≤ t + window then (limit - bucket.count) + limit
    else limit - bucket.count

/-- A call takes the place that it needs. -/
theorem room_hit (hwindow : 0 < window) (hlimit : 0 < limit) (hnow : now ≤ t + window) :
    (if t ≤ now ∧ now ≤ t + window ∧ (hit window bucket now).count ≤ limit then 1 else 0) + room window limit t
      (some (hit window bucket now)) ≤
      room window limit t bucket := by
  cases bucket with
  | none =>
    rw [show hit window none now = ⟨1, now + window⟩ from rfl]
    simp only [room]
    split_ifs <;> omega
  | some bucket =>
    by_cases hover : bucket.resetAt ≤ now
    · rw [hit_over hover]
      simp only [room]
      split_ifs <;> omega
    · rw [hit_running (by omega)]
      simp only [room]
      split_ifs <;> omega

/-- Calls after the interval are not in it. -/
theorem admitted_eq_zero {first last : Int} (h : ∀ x ∈ times, last < x) :
    admitted window limit first last bucket times = 0 := by
  induction times generalizing bucket with
  | nil => rfl
  | cons now times ih =>
    have hnow := h now List.mem_cons_self
    rw [admitted, if_neg (by omega), ih fun x hx => h x (List.mem_cons_of_mem _ hx)]

theorem admitted_le_room (hwindow : 0 < window) (hlimit : 0 < limit) (htimes : times.Pairwise (· ≤ ·)) :
    admitted window limit t (t + window) bucket times ≤ room window limit t bucket := by
  induction times generalizing bucket with
  | nil => exact Nat.zero_le _
  | cons now times ih =>
    obtain ⟨hle, htimes'⟩ := List.pairwise_cons.mp htimes
    by_cases hnow : now ≤ t + window
    · have hrest := @ih (some (hit window bucket now)) htimes'
      have hcall := @room_hit _ _ bucket _ _ hwindow hlimit hnow
      rw [admitted]
      omega
    · have hafter : ∀ x ∈ now :: times, t + window < x := by
        intro x hx
        rcases List.mem_cons.mp hx with rfl | hx
        · omega
        · have := hle x hx
          omega
      rw [admitted_eq_zero hafter]
      exact Nat.zero_le _

/-- **No interval as long as the window has more than twice the limit.** -/
theorem admitted_le (hwindow : 0 < window) (hlimit : 0 < limit) (htimes : times.Pairwise (· ≤ ·)) :
    admitted window limit t (t + window) none times ≤ 2 * limit :=
  admitted_le_room hwindow hlimit htimes

/-! ## Counts -/

/-- A counter after calls at these times, with a window that has begun at `start`. -/
structure Counts (window : Int) (times : List Int) (start : Int) (bucket : Bucket) : Prop where
  resetAt_eq : bucket.resetAt = start + window
  count_eq : bucket.count = times.countP fun x => decide (start ≤ x)
  start_mem : start ∈ times
  before : ∀ x ∈ times, x < start + window

theorem Counts.start_le {start : Int} {b : Bucket} (h : Counts window (times ++ [now]) start b)
    (htimes : (times ++ [now]).Pairwise (· ≤ ·)) : start ≤ now := by
  rcases List.mem_append.mp h.start_mem with hstart | hstart
  · exact (List.pairwise_append.mp htimes).2.2 start hstart now (by simp)
  · exact Int.le_of_eq (List.mem_singleton.mp hstart)

@[simp] theorem bucketAfter_concat :
    bucketAfter window (times ++ [now]) = some (hit window (bucketAfter window times) now) := by
  simp [bucketAfter]

@[simp] theorem startAfter_concat :
    startAfter window (times ++ [now]) = some (current window (startAfter window times) now) := by
  simp [startAfter]

/-- The first call of a window. -/
theorem counts_first (hwindow : 0 < window) (h : ∀ x ∈ times, x < now) :
    Counts window (times ++ [now]) now ⟨1, now + window⟩ where
  resetAt_eq := rfl
  count_eq := by
    have hnone : times.countP (fun x => decide (now ≤ x)) = 0 := by
      refine List.countP_eq_zero.mpr fun x hx => ?_
      have hlt := h x hx
      simp
      omega
    simp [List.countP_append, hnone]
  start_mem := by simp
  before x hx := by
    rcases List.mem_append.mp hx with hx | hx
    · have hlt := h x hx
      omega
    · obtain rfl := List.mem_singleton.mp hx
      omega

theorem Counts.hit {start : Int} {bucket : Bucket} (hwindow : 0 < window) (h : Counts window times start bucket)
    (hnow : ∀ x ∈ times, x ≤ now) :
    Counts window (times ++ [now]) (current window (some start) now) (hit window (some bucket) now) := by
  have hstart := hnow start h.start_mem
  have hreset := h.resetAt_eq
  unfold current
  dsimp only
  split
  · next hover =>
    rw [hit_over (by omega)]
    refine counts_first hwindow fun x hx => ?_
    have hlt := h.before x hx
    omega
  · next hrunning =>
    rw [hit_running (by omega)]
    refine ⟨hreset, ?_, ?_, ?_⟩
    · simp [List.countP_append, h.count_eq, hstart]
    · exact List.mem_append_left _ h.start_mem
    · intro x hx
      rcases List.mem_append.mp hx with hx | hx
      · exact h.before x hx
      · obtain rfl := List.mem_singleton.mp hx
        omega

/-- **The count is the number of calls since the window has begun.** -/
theorem counts_bucketAfter (hwindow : 0 < window) (htimes : (times ++ [now]).Pairwise (· ≤ ·)) :
    Counts window (times ++ [now]) (current window (startAfter window times) now)
      (hit window (bucketAfter window times) now) := by
  induction times using List.reverseRecOn generalizing now with
  | nil => exact counts_first hwindow (by simp)
  | append_singleton times last ih =>
    obtain ⟨hbefore, -, hle⟩ := List.pairwise_append.mp htimes
    rw [startAfter_concat, bucketAfter_concat]
    exact (ih hbefore).hit hwindow fun x hx => hle x hx now (by simp)

/-! ## Stores that forget -/

/-- What a store has for a key at a time is the counter, or nothing where the window is over. -/
def Mirrors (now : Int) (stored counter : Option Bucket) : Prop :=
  stored = counter ∨ stored = none ∧ ∀ bucket, counter = some bucket → bucket.resetAt ≤ now

variable {stored counter : Option Bucket}

theorem Mirrors.mono (h : Mirrors now stored counter) {now' : Int} (hle : now ≤ now') : Mirrors now' stored counter := by
  rcases h with h | ⟨hnone, hover⟩
  · exact Or.inl h
  · exact Or.inr ⟨hnone, fun bucket hbucket => Int.le_trans (hover bucket hbucket) hle⟩

theorem Mirrors.hit (h : Mirrors now stored counter) :
    FixedWindow.hit window stored now = FixedWindow.hit window counter now := by
  rcases h with rfl | ⟨rfl, hover⟩
  · rfl
  · cases counter with
    | none => rfl
    | some bucket => exact (hit_over (hover bucket rfl)).symm

end FixedWindow
