import AdWiki.Backups.Schedule
import AdWiki.Lib.Calendar
import AdWiki.Lib.Clocks

/-!
# The runs of a schedule in a time zone

The clock of a time zone is `Clocks.reading` of its offset, in minutes. What a schedule asks for is said of that clock
(`IsScheduled`), and `nextScheduledRun` is shown to find it.

* `isRun_iff`: the condition of the loop, with its look at the minutes before and its detour over dates, is `IsScheduled`.
* `exists_scheduled`: there is a run in the days that are searched, for every regular zone.
* `next_scheduled_runs`: the run that is found is the next one, and runs that are found one after the other are all runs.
-/

namespace AdWiki.Backups

open Clocks (reading First)

/-! ## Time zones -/

/-- `Intl.DateTimeFormat`: `offset` says by how many minutes a zone is ahead in a minute since 1970. -/
def zoneEnv (offset : String → Int → Int) : Env where
  formatToParts timezone date :=
    let minute := reading (offset timezone) (date / minuteMs)
    let date := Calendar.ofDay (minute / 1440)
    ⟨date.year, date.month, date.day, minute % 1440 / 60, minute % 60⟩

/-- In any 15 days the clock is set back at most once, by at most 180 minutes, and forward at most once, by at most 24
hours. -/
abbrev RegularZone (offset : Int → Int) : Prop := Clocks.Regular offset 180 1440 (15 * 24 * 60)

/-! ## What a schedule asks for -/

/-- What `BackupScheduleSchema` checks. -/
structure Accepted (schedule : BackupSchedule) : Prop where
  hour : 0 ≤ schedule.hour ∧ schedule.hour ≤ 23
  minute : 0 ≤ schedule.minute ∧ schedule.minute ≤ 59
  weekdays : ∀ weekday ∈ schedule.weekdays, 1 ≤ weekday ∧ weekday ≤ 7
  weekdays_ne_nil : schedule.weekdays ≠ []

/-- From Monday, 1, to Sunday, 7. The first of January 1970 was a Thursday. -/
def weekday (day : Int) : Int := (day + 3) % 7 + 1

/-- A local minute of the schedule. -/
structure OnSchedule (schedule : BackupSchedule) (t : Int) : Prop where
  hour : t % 1440 / 60 = schedule.hour
  minute : t % 60 = schedule.minute
  weekday : weekday (t / 1440) ∈ schedule.weekdays

/-- A minute of the schedule that is not there for the second time. -/
structure IsScheduled (offset : String → Int → Int) (schedule : BackupSchedule) (u : Int) : Prop where
  onSchedule : OnSchedule schedule (reading (offset schedule.timezone) u)
  first : First (offset schedule.timezone) u

/-- After the point in time no date of the zone is before the year 100. -/
def FromYearHundred (offset : String → Int → Int) (schedule : BackupSchedule) (after : Int) : Prop :=
  ∀ u, after < u * minuteMs → 100 ≤ (Calendar.ofDay (reading (offset schedule.timezone) u / 1440)).year

/-- The run after the run after … the run after a point in time. -/
def runsAfter (env : Env) (schedule : BackupSchedule) (after : Int) : Nat → Option Int
  | 0 => nextScheduledRun env schedule after
  | n + 1 => (runsAfter env schedule after n).bind (nextScheduledRun env schedule)

variable {offset : String → Int → Int} {schedule : BackupSchedule} {after u v : Int}

/-! ## The condition of the loop -/

theorem minuteMs_div : u * minuteMs / minuteMs = u := Int.mul_ediv_cancel u (by decide)

/-- `Date.UTC` knows the days from the year 100 on. -/
theorem utcDay_eq {date : Calendar.Date} (h : 100 ≤ date.year) :
    utcDay date.year date.month date.day = Calendar.dayNumber date := by
  unfold utcDay Calendar.dayNumber
  rw [if_neg (by omega)]

theorem isoWeekday_eq {day : Int} (h : 100 ≤ (Calendar.ofDay day).year) :
    isoWeekday (Calendar.ofDay day).year (Calendar.ofDay day).month (Calendar.ofDay day).day = weekday day := by
  unfold isoWeekday weekday
  rw [utcDay_eq h, Calendar.dayNumber_ofDay]
  dsimp only
  split <;> omega

/-- The texts of two local minutes are the same only if the minutes are. -/
theorem sameSignature_iff : sameSignature (localMinute (zoneEnv offset) schedule (v * minuteMs))
    (localMinute (zoneEnv offset) schedule (u * minuteMs)) = true ↔
      reading (offset schedule.timezone) v = reading (offset schedule.timezone) u := by
  simp only [sameSignature, localMinute, zoneEnv, minuteMs_div, decide_eq_true_eq, LocalParts.mk.injEq]
  generalize reading (offset schedule.timezone) v = a
  generalize reading (offset schedule.timezone) u = b
  constructor
  · rintro ⟨hyear, hmonth, hday, hhour, hminute⟩
    have hdate : Calendar.ofDay (a / 1440) = Calendar.ofDay (b / 1440) := by
      cases ha : Calendar.ofDay (a / 1440)
      cases hb : Calendar.ofDay (b / 1440)
      simp_all
    have hdays : a / 1440 = b / 1440 := by
      rw [← Calendar.dayNumber_ofDay (a / 1440), hdate, Calendar.dayNumber_ofDay]
    omega
  · rintro rfl
    simp

theorem isSecondOccurrence_iff (hzone : RegularZone (offset schedule.timezone)) :
    isSecondOccurrence (zoneEnv offset) schedule (u * minuteMs) = false ↔ First (offset schedule.timezone) u := by
  have hstep : ∀ k : Nat, u * minuteMs - ((k : Int) + 1) * minuteMs = (u - (k + 1)) * minuteMs :=
    fun k => (sub_mul _ _ _).symm
  rw [Clocks.first_iff hzone (by decide) (by decide), isSecondOccurrence, List.any_eq_false]
  simp only [List.mem_range, hstep, sameSignature_iff]
  constructor
  · intro h w hlow hlt
    have hw := h (u - w - 1).toNat (by unfold dstLookbackMinutes; omega)
    rwa [show u - (((u - w - 1).toNat : Int) + 1) = w by omega] at hw
  · intro h k hk
    unfold dstLookbackMinutes at hk
    exact h _ (by omega) (by omega)

theorem isRun_iff (hzone : RegularZone (offset schedule.timezone))
    (hyear : 100 ≤ (Calendar.ofDay (reading (offset schedule.timezone) u / 1440)).year) :
    isRun (zoneEnv offset) schedule (u * minuteMs) = true ↔ IsScheduled offset schedule u := by
  have hlocal : localMinute (zoneEnv offset) schedule (u * minuteMs) =
      { (zoneEnv offset).formatToParts schedule.timezone (u * minuteMs) with
        weekday := weekday (reading (offset schedule.timezone) u / 1440) } := by
    simp only [localMinute, zoneEnv, minuteMs_div, isoWeekday_eq hyear]
  have hsecond := isSecondOccurrence_iff (u := u) hzone
  unfold isRun
  rw [hlocal]
  generalize isSecondOccurrence (zoneEnv offset) schedule (u * minuteMs) = second at hsecond ⊢
  simp only [Bool.and_eq_true, Bool.not_eq_true', decide_eq_true_eq, List.contains_iff_mem, zoneEnv,
    minuteMs_div, hsecond]
  exact ⟨fun ⟨⟨⟨hhour, hminute⟩, hweekday⟩, hfirst⟩ => ⟨⟨hhour, hminute, hweekday⟩, hfirst⟩,
    fun ⟨⟨hhour, hminute, hweekday⟩, hfirst⟩ => ⟨⟨⟨hhour, hminute⟩, hweekday⟩, hfirst⟩⟩

/-! ## The search -/

/-- The search stops at the first run, if there is one. -/
theorem searchRun_least {env : Env} {start : Int} {n k i : Nat} (hik : i ≤ k) (hkn : k < i + n)
    (hrun : isRun env schedule (start + k * minuteMs) = true) :
    ∃ m, i ≤ m ∧ m ≤ k ∧ searchRun env schedule start n i = some (start + m * minuteMs) ∧
      ∀ j : Nat, i ≤ j → j < m → isRun env schedule (start + j * minuteMs) = false := by
  induction n generalizing i with
  | zero => omega
  | succ n ih =>
    unfold searchRun
    by_cases hi : isRun env schedule (start + i * minuteMs) = true
    · rw [if_pos hi]
      exact ⟨i, le_refl i, hik, rfl, fun j hij hji => absurd hij (by omega)⟩
    · rw [if_neg hi]
      have hne : i ≠ k := by
        rintro rfl
        exact hi hrun
      obtain ⟨m, him, hmk, hsearch, hnone⟩ := ih (i := i + 1) (by omega) (by omega)
      refine ⟨m, by omega, hmk, hsearch, fun j hij hjm => ?_⟩
      by_cases hj : j = i
      · rw [hj, Bool.eq_false_iff]
        exact hi
      · exact hnone j (by omega) hjm

theorem lt_mul_minuteMs : after < u * minuteMs ↔ after / minuteMs < u := by
  unfold minuteMs
  omega

/-- A schedule has a run in any days that are searched. -/
theorem exists_scheduled (hschedule : Accepted schedule) (hzone : RegularZone (offset schedule.timezone)) (s : Int) :
    ∃ u, s ≤ u ∧ u < s + maxSearchMinutes ∧ IsScheduled offset schedule u := by
  obtain ⟨w, hw⟩ := List.exists_mem_of_ne_nil _ hschedule.weekdays_ne_nil
  obtain ⟨hw1, hw7⟩ := hschedule.weekdays w hw
  obtain ⟨hhour, hminute⟩ := And.intro hschedule.hour hschedule.minute
  -- the minutes on a weekday of the schedule are a class modulo a week
  obtain ⟨u, hlow, hhigh, hfirst, hclass⟩ :=
    Clocks.exists_first hzone (by decide) (show (1440 : Int) < 10080 by decide) (by decide)
    (by decide) s ((w - 4) * 1440 + schedule.hour * 60 + schedule.minute)
  refine ⟨u, hlow, hhigh, ⟨?_, ?_, ?_⟩, hfirst⟩
  · omega
  · omega
  · rw [show weekday (reading (offset schedule.timezone) u / 1440) = w by
      unfold weekday
      omega]
    exact hw

theorem nextScheduledRun_isLeast (hschedule : Accepted schedule) (hzone : RegularZone (offset schedule.timezone))
    (hyears : FromYearHundred offset schedule after) :
    ∃ u, nextScheduledRun (zoneEnv offset) schedule after = some (u * minuteMs) ∧
      IsLeast {v | after < v * minuteMs ∧ IsScheduled offset schedule v} u := by
  obtain ⟨v, hlow, hhigh, hv⟩ := exists_scheduled hschedule hzone (after / minuteMs + 1)
  have hstart : ∀ k : Nat, firstMinute after + k * minuteMs = (after / minuteMs + 1 + k) * minuteMs := by
    intro k
    unfold firstMinute minuteMs
    omega
  have hiff : ∀ k : Nat, isRun (zoneEnv offset) schedule (firstMinute after + k * minuteMs) = true ↔
      IsScheduled offset schedule (after / minuteMs + 1 + k) := by
    intro k
    rw [hstart]
    exact isRun_iff hzone (hyears _ (lt_mul_minuteMs.mpr (by omega)))
  obtain ⟨k, hk⟩ : ∃ k : Nat, v = after / minuteMs + 1 + k := ⟨(v - (after / minuteMs + 1)).toNat, by omega⟩
  obtain ⟨m, -, hmk, hsearch, hnone⟩ := searchRun_least (n := maxSearchMinutes) (i := 0) (Nat.zero_le k) (by omega)
    ((hiff k).mpr (hk ▸ hv))
  refine ⟨after / minuteMs + 1 + m, hsearch.trans (congrArg some (hstart m)), ⟨lt_mul_minuteMs.mpr (by omega), ?_⟩, ?_⟩
  · exact (hiff m).mp (matches_nextScheduledRun hsearch).1
  · rintro w ⟨hw, hscheduled⟩
    have hw := lt_mul_minuteMs.mp hw
    by_contra hlt
    obtain ⟨j, hj⟩ : ∃ j : Nat, w = after / minuteMs + 1 + j := ⟨(w - (after / minuteMs + 1)).toNat, by omega⟩
    have hrun := (hiff j).mpr (hj ▸ hscheduled)
    rw [hnone j (Nat.zero_le j) (by omega)] at hrun
    cases hrun

/-! ## One run after the other -/

theorem FromYearHundred.later {later : Int} (h : FromYearHundred offset schedule after) (hle : after ≤ later) :
    FromYearHundred offset schedule later := fun u hu => h u (lt_of_le_of_lt hle hu)

/-- Each run is the next one after the run before. -/
theorem exists_runsAfter (hschedule : Accepted schedule) (hzone : RegularZone (offset schedule.timezone))
    (hyears : FromYearHundred offset schedule after) (n : Nat) :
    ∃ u, runsAfter (zoneEnv offset) schedule after n = some (u * minuteMs) ∧ after < u * minuteMs := by
  induction n with
  | zero =>
    obtain ⟨u, hnext, hleast⟩ := nextScheduledRun_isLeast hschedule hzone hyears
    exact ⟨u, hnext, hleast.1.1⟩
  | succ n ih =>
    obtain ⟨u, hrun, hu⟩ := ih
    obtain ⟨v, hnext, hleast⟩ := nextScheduledRun_isLeast hschedule hzone (hyears.later hu.le)
    refine ⟨v, ?_, hu.trans hleast.1.1⟩
    rw [runsAfter, hrun]
    exact hnext

/-- **The next run is the first minute after the point in time that the schedule asks for, and one run after the other all
local minutes of the schedule are there, each once.** -/
theorem next_scheduled_runs (offset : String → Int → Int) (schedule : BackupSchedule) (after : Int)
    (hschedule : Accepted schedule)
    (hzone : RegularZone (offset schedule.timezone)) (hyears : FromYearHundred offset schedule after) :
    (∃ u, nextScheduledRun (zoneEnv offset) schedule after = some (u * minuteMs) ∧
      IsLeast {v | after < v * minuteMs ∧ IsScheduled offset schedule v} u) ∧
    ∃ r : Nat → Int, (∀ n, runsAfter (zoneEnv offset) schedule after n = some (r n * minuteMs)) ∧ StrictMono r ∧
      (∀ n, after < r n * minuteMs ∧ IsScheduled offset schedule (r n)) ∧
      ∀ t u, OnSchedule schedule t → First (offset schedule.timezone) u → reading (offset schedule.timezone) u = t →
        after < u * minuteMs → ∃! n, reading (offset schedule.timezone) (r n) = t := by
  refine ⟨nextScheduledRun_isLeast hschedule hzone hyears, ?_⟩
  choose r hr hafter using exists_runsAfter hschedule hzone hyears
  have hminute : ∀ {a b : Int}, some (a * minuteMs) = some (b * minuteMs) → a = b := by
    intro a b h
    have h := Option.some.inj h
    unfold minuteMs at h
    omega
  have hzero : IsLeast {v | after / minuteMs < v ∧ IsScheduled offset schedule v} (r 0) := by
    obtain ⟨u, hnext, hleast⟩ := nextScheduledRun_isLeast hschedule hzone hyears
    obtain rfl : r 0 = u := hminute ((hr 0).symm.trans hnext)
    simpa only [lt_mul_minuteMs] using hleast
  have hsucc : ∀ n, IsLeast {v | r n < v ∧ IsScheduled offset schedule v} (r (n + 1)) := by
    intro n
    obtain ⟨u, hnext, hleast⟩ := nextScheduledRun_isLeast hschedule hzone (hyears.later (hafter n).le)
    have hrun := hr (n + 1)
    rw [runsAfter, hr n] at hrun
    obtain rfl : r (n + 1) = u := hminute (hrun.symm.trans hnext)
    simpa only [lt_mul_minuteMs, minuteMs_div] using hleast
  obtain ⟨hmono, hall⟩ := Clocks.enumerates hzero hsucc
  have hscheduled : ∀ n, IsScheduled offset schedule (r n) := fun n => ((hall (r n)).mp ⟨n, rfl⟩).2
  refine ⟨r, hr, hmono, fun n => ⟨hafter n, hscheduled n⟩, ?_⟩
  rintro t u htime hfirst rfl hu
  obtain ⟨n, hn⟩ := (hall u).mpr ⟨lt_mul_minuteMs.mp hu, htime, hfirst⟩
  refine ⟨n, congrArg _ hn, fun m hm => ?_⟩
  -- two first times with one reading are the same
  rw [← hn] at hm
  rcases lt_trichotomy m n with hlt | rfl | hlt
  · exact absurd hm ((hscheduled n).first (r m) (hmono hlt))
  · rfl
  · exact absurd hm.symm ((hscheduled m).first (r n) (hmono hlt))

/-! ## Two zones -/

namespace ZoneDemo

/-- Two hours ahead, and one hour from a night in 1970 on. -/
def autumn (_ : String) (u : Int) : Int := if u < 401820 then 120 else 60

/-- Five hours behind. -/
def eastern (_ : String) (_ : Int) : Int := -300

def sundays : BackupSchedule := ⟨2, 30, "Europe/Berlin", [7]⟩

def fridays : BackupSchedule := ⟨20, 0, "America/New_York", [5]⟩

/-- 0100-01-01T00:00Z -/
def newYear : Int := -59011459200000

end ZoneDemo

/-- The clock shows half past two twice in that night. -/
theorem next_scheduled_runs_autumn :
    ∃ u, nextScheduledRun (zoneEnv ZoneDemo.autumn) ZoneDemo.sundays (401700 * minuteMs) =
      some (u * minuteMs) ∧
    IsLeast {v | 401700 * minuteMs < v * minuteMs ∧ IsScheduled ZoneDemo.autumn ZoneDemo.sundays v} u := by
  have hzone : RegularZone (ZoneDemo.autumn ZoneDemo.sundays.timezone) := by
    constructor <;> simp only [ZoneDemo.autumn] <;> intro u <;> split <;> split <;> omega
  have hyears : FromYearHundred ZoneDemo.autumn ZoneDemo.sundays (401700 * minuteMs) := by
    intro u hu
    have hlt := lt_mul_minuteMs.mp hu
    rw [minuteMs_div] at hlt
    have hday : 0 ≤ reading (ZoneDemo.autumn ZoneDemo.sundays.timezone) u / 1440 := by
      unfold reading ZoneDemo.autumn
      split <;> omega
    have hyear := Calendar.year_ofDay hday
    omega
  exact (next_scheduled_runs ZoneDemo.autumn ZoneDemo.sundays (401700 * minuteMs)
    ⟨by decide, by decide, by decide, by decide⟩ hzone hyears).1

/-- In the first hours of the year 100 UTC it is still the year 99 there. `Date.UTC` takes 99 for 1999, and a Thursday of
the year 99 for a Friday. -/
theorem year_ninetyNine :
    ∃ u, nextScheduledRun (zoneEnv ZoneDemo.eastern) ZoneDemo.fridays ZoneDemo.newYear = some (u * minuteMs) ∧
    RegularZone (ZoneDemo.eastern ZoneDemo.fridays.timezone) ∧ Accepted ZoneDemo.fridays ∧
    Calendar.ofDay (ZoneDemo.newYear / 86400000) = ⟨100, 1, 1⟩ ∧ ¬IsScheduled ZoneDemo.eastern ZoneDemo.fridays u := by
  have hzone : RegularZone (ZoneDemo.eastern ZoneDemo.fridays.timezone) := by
    constructor <;> simp only [ZoneDemo.eastern] <;> omega
  refine ⟨-983524260, by decide +kernel, hzone,
    ⟨by decide, by decide, by decide, by decide⟩, by decide +kernel, fun h => ?_⟩
  have hweekday := h.onSchedule.weekday
  revert hweekday
  decide

end AdWiki.Backups
