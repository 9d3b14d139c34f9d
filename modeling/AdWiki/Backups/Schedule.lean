import Mathlib

/-!
# The next run of a schedule

`nextScheduledRun` walks the minutes after a point in time and takes the first one whose local time is that of the
schedule, unless the clocks have been set back and it is there for the second time. Times are milliseconds since 1970.

* `matches_nextScheduledRun`: what the run is.
* `lt_nextScheduledRun`: it is later than the point in time.
-/

namespace AdWiki.Backups

/-- The parts of a local time that `formatToParts` returns for the options of `formatterFor`. -/
structure LocalParts where
  year : Int
  month : Int
  day : Int
  hour : Int
  minute : Int
  deriving DecidableEq, Repr

structure LocalMinute extends LocalParts where
  weekday : Int
  deriving DecidableEq, Repr

/-- `Intl.DateTimeFormat` for a time zone, by its tables. -/
structure Env where
  formatToParts : String → Int → LocalParts

structure BackupSchedule where
  hour : Int
  minute : Int
  timezone : String
  weekdays : List Int
  deriving DecidableEq, Repr

def minuteMs : Int := 60000

def maxSearchMinutes : Nat := 15 * 24 * 60

def dstLookbackMinutes : Nat := 180

/-- Days from 1970-01-01 to a date, `Date.UTC(year, month - 1, day)` by the day. Two-digit years are of the 20th
century there. -/
def utcDay (year month day : Int) : Int :=
  let year := if 0 ≤ year ∧ year ≤ 99 then 1900 + year else year
  let y := if month ≤ 2 then year - 1 else year
  let era := y / 400
  let yearOfEra := y - era * 400
  let dayOfYear := (153 * (if month > 2 then month - 3 else month + 9) + 2) / 5 + day - 1
  era * 146097 + (yearOfEra * 365 + yearOfEra / 4 - yearOfEra / 100 + dayOfYear) - 719468

def isoWeekday (year month day : Int) : Int :=
  let sundayBased := (utcDay year month day + 4) % 7
  if sundayBased = 0 then 7 else sundayBased

section NextRun

variable (env : Env) (schedule : BackupSchedule)

def localMinute (date : Int) : LocalMinute :=
  let parts := env.formatToParts schedule.timezone date
  { parts with weekday := isoWeekday parts.year parts.month parts.day }

/-- `localSignature` of the two agrees. -/
def sameSignature (left right : LocalMinute) : Bool := left.toLocalParts = right.toLocalParts

def isSecondOccurrence (candidate : Int) : Bool :=
  (List.range dstLookbackMinutes).any fun offset =>
    sameSignature (localMinute env schedule (candidate - (offset + 1) * minuteMs)) (localMinute env schedule candidate)

/-- The condition on a candidate in the loop. -/
def isRun (candidate : Int) : Bool :=
  let minute := localMinute env schedule candidate
  minute.hour = schedule.hour && minute.minute = schedule.minute && schedule.weekdays.contains minute.weekday &&
    !isSecondOccurrence env schedule candidate

/-- The loop over the minutes from `start + offset` on, `n` of which are left. -/
def searchRun (start : Int) : Nat → Nat → Option Int
  | 0, _ => none
  | n + 1, offset =>
    if isRun env schedule (start + offset * minuteMs) then some (start + offset * minuteMs)
      else searchRun start n (offset + 1)

def firstMinute (after : Int) : Int := after / minuteMs * minuteMs + minuteMs

/-- `none` is the `RangeError` when there is no run in the minutes that are searched. -/
def nextScheduledRun (after : Int) : Option Int := searchRun env schedule (firstMinute after) maxSearchMinutes 0

end NextRun

variable {env : Env} {schedule : BackupSchedule} {start after run : Int} {n offset : Nat}

theorem searchRun_eq_some (h : searchRun env schedule start n offset = some run) :
    isRun env schedule run = true ∧ ∃ k, offset ≤ k ∧ k < offset + n ∧ run = start + k * minuteMs := by
  induction n generalizing offset with
  | zero => cases h
  | succ n ih =>
    unfold searchRun at h
    split at h
    · next hrun =>
      cases h
      exact ⟨hrun, offset, Nat.le_refl _, by omega, rfl⟩
    · obtain ⟨hrun, k, hk, hlt, rfl⟩ := ih h
      exact ⟨hrun, k, by omega, by omega, rfl⟩

/-- The run is a minute of the schedule, within the days that are searched. -/
theorem matches_nextScheduledRun (h : nextScheduledRun env schedule after = some run) :
    isRun env schedule run = true ∧ ∃ k < maxSearchMinutes, run = firstMinute after + k * minuteMs := by
  obtain ⟨hrun, k, -, hlt, hk⟩ := searchRun_eq_some h
  exact ⟨hrun, k, by omega, hk⟩

theorem lt_nextScheduledRun (h : nextScheduledRun env schedule after = some run) : after < run := by
  obtain ⟨-, k, -, rfl⟩ := matches_nextScheduledRun h
  have hmod := Int.emod_lt_of_pos after (show (0 : Int) < minuteMs by decide)
  have hdiv := Int.emod_add_mul_ediv after minuteMs
  unfold firstMinute minuteMs at *
  omega

namespace Demo

/-- The clock in UTC, within January 1970. -/
def january : Env where
  formatToParts _ date :=
    { year := 1970, month := 1, day := date / 86400000 + 1, hour := date / 3600000 % 24, minute := date / 60000 % 60 }

def daily : BackupSchedule := ⟨4, 30, "UTC", [1, 2, 3, 4, 5, 6, 7]⟩

end Demo

/-- At 04:29:50 on the first of January the run of the day is still ahead. -/
example : nextScheduledRun Demo.january Demo.daily 16190000 = some 16200000 := by decide +kernel

end AdWiki.Backups
