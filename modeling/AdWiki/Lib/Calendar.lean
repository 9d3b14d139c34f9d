import Mathlib

/-!
# The Gregorian calendar

Days are counted from 1970-01-01, and years begin in March here, so that a leap day is the last day of a year. The
calendar repeats itself after an era of 400 years, which are 146097 days. The calendar is carried on before its
introduction.

* `dayNumber_ofDay`: the date of a day.
* `year_ofDay_bounds`: the year that a day is in.
-/

namespace Calendar

structure Date where
  year : Int
  month : Int
  day : Int
  deriving DecidableEq, Repr

/-- The day of a date. -/
def dayNumber (date : Date) : Int :=
  let y := if date.month ≤ 2 then date.year - 1 else date.year
  let era := y / 400
  let yearOfEra := y - era * 400
  let dayOfYear := (153 * (if date.month > 2 then date.month - 3 else date.month + 9) + 2) / 5 + date.day - 1
  era * 146097 + (yearOfEra * 365 + yearOfEra / 4 - yearOfEra / 100 + dayOfYear) - 719468

/-- The centuries, the four years and the years before a day of an era. The last century of an era and the last of four
years are a day longer than the others. -/
def century (dayOfEra : Int) : Int := min (dayOfEra / 36524) 3

def fourYears (dayOfEra : Int) : Int := (dayOfEra - century dayOfEra * 36524) / 1461

def yearOfFour (dayOfEra : Int) : Int := min ((dayOfEra - century dayOfEra * 36524) % 1461 / 365) 3

def yearOfEra (dayOfEra : Int) : Int := century dayOfEra * 100 + fourYears dayOfEra * 4 + yearOfFour dayOfEra

def dayOfYear (dayOfEra : Int) : Int := (dayOfEra - century dayOfEra * 36524) % 1461 - yearOfFour dayOfEra * 365

/-- The month, by its place in a year from March on. -/
def monthOf (monthOfYear : Int) : Int := if monthOfYear < 10 then monthOfYear + 3 else monthOfYear - 9

/-- The date of a day. -/
def ofDay (n : Int) : Date :=
  let era := (n + 719468) / 146097
  let dayOfEra := (n + 719468) % 146097
  let monthOfYear := (5 * dayOfYear dayOfEra + 2) / 153
  { year := era * 400 + yearOfEra dayOfEra + if monthOf monthOfYear ≤ 2 then 1 else 0
    month := monthOf monthOfYear
    day := dayOfYear dayOfEra - (153 * monthOfYear + 2) / 5 + 1 }

/-- The day of the era is the day of its year, after the years before. -/
theorem dayOfEra_eq {d : Int} (h0 : 0 ≤ d) (h : d < 146097) :
    0 ≤ yearOfEra d ∧ yearOfEra d ≤ 399 ∧ 0 ≤ dayOfYear d ∧ dayOfYear d ≤ 365 ∧
      d = yearOfEra d * 365 + yearOfEra d / 4 - yearOfEra d / 100 + dayOfYear d := by
  have hc : 0 ≤ century d ∧ century d ≤ 3 ∧ 0 ≤ d - century d * 36524 ∧ d - century d * 36524 ≤ 36524 := by
    unfold century
    omega
  have hq : 0 ≤ fourYears d ∧ fourYears d ≤ 24 := by
    unfold fourYears
    omega
  have hrest := Int.emod_add_mul_ediv (d - century d * 36524) 1461
  have hmod := Int.emod_nonneg (d - century d * 36524) (show (1461 : Int) ≠ 0 by decide)
  have hlt := Int.emod_lt_of_pos (d - century d * 36524) (show (0 : Int) < 1461 by decide)
  have hi : 0 ≤ yearOfFour d ∧ yearOfFour d ≤ 3 ∧ 0 ≤ dayOfYear d ∧ dayOfYear d ≤ 365 := by
    unfold dayOfYear yearOfFour
    omega
  have hfour : yearOfEra d / 4 = century d * 25 + fourYears d := by
    unfold yearOfEra
    omega
  have hhundred : yearOfEra d / 100 = century d := by
    unfold yearOfEra
    omega
  rw [hfour, hhundred]
  unfold yearOfEra
  unfold dayOfYear at *
  unfold fourYears at *
  omega

/-- The date of the day `d` of the year `y` of an era. -/
theorem dayNumber_date {era y d m : Int} (hy0 : 0 ≤ y) (hy : y ≤ 399) (hm0 : 0 ≤ m) (hm : m ≤ 11) :
    dayNumber ⟨era * 400 + y + if monthOf m ≤ 2 then 1 else 0, monthOf m, d - (153 * m + 2) / 5 + 1⟩ =
      era * 146097 + (y * 365 + y / 4 - y / 100 + d) - 719468 := by
  have hera : (era * 400 + y) / 400 = era := by omega
  unfold dayNumber monthOf
  by_cases hmonth : m < 10
  · have hafter : ¬m + 3 ≤ 2 := by omega
    have hmarch : m + 3 > 2 := by omega
    simp only [hmonth, if_true, hafter, if_false, Int.add_zero, hera, hmarch]
    omega
  · have hbefore : m - 9 ≤ 2 := by omega
    have hmarch : ¬m - 9 > 2 := by omega
    simp only [hmonth, if_false, hbefore, if_true, Int.add_sub_cancel, hera, hmarch]
    omega

theorem dayNumber_ofDay (n : Int) : dayNumber (ofDay n) = n := by
  have hmod := Int.emod_nonneg (n + 719468) (show (146097 : Int) ≠ 0 by decide)
  have hlt := Int.emod_lt_of_pos (n + 719468) (show (0 : Int) < 146097 by decide)
  have hdiv := Int.emod_add_mul_ediv (n + 719468) 146097
  obtain ⟨hy0, hy, hd0, hd, hday⟩ := dayOfEra_eq hmod hlt
  refine (dayNumber_date hy0 hy (by omega) (by omega)).trans ?_
  omega

/-- From the first day of 1970 on. -/
theorem year_ofDay {n : Int} (h : 0 ≤ n) : 1600 ≤ (ofDay n).year := by
  have hmod := Int.emod_nonneg (n + 719468) (show (146097 : Int) ≠ 0 by decide)
  have hlt := Int.emod_lt_of_pos (n + 719468) (show (0 : Int) < 146097 by decide)
  obtain ⟨hy0, -⟩ := dayOfEra_eq hmod hlt
  show 1600 ≤ (n + 719468) / 146097 * 400 + yearOfEra ((n + 719468) % 146097) + _
  split <;> omega

/-! ## Years -/

/-- The year of a day of a year of four, counted with the leap days that are taken out. -/
theorem year_of_parts {c q r : Int} (hc0 : 0 ≤ c) (hc : c ≤ 3) (hq0 : 0 ≤ q) (hq : q ≤ 24) (hr0 : 0 ≤ r) (hr : r ≤ 1460) :
    (36524 * c + 1461 * q + r + c - (36524 * c + 1461 * q + r) / 1460) / 365 = c * 100 + q * 4 + min (r / 365) 3 := by
  have hdays : (36524 * c + 1461 * q + r) / 1460 = 25 * c + q + (24 * c + q + r) / 1460 := by omega
  rw [hdays]
  by_cases hlate : 24 * c + q + r < 1460
  · have hzero : (24 * c + q + r) / 1460 = 0 := by omega
    have hsum : 36524 * c + 1461 * q + r + c - (25 * c + q + 0) = 365 * (c * 100 + q * 4) + r := by omega
    rw [hzero, hsum]
    omega
  · have hone : (24 * c + q + r) / 1460 = 1 := by omega
    have hsum : 36524 * c + 1461 * q + r + c - (25 * c + q + 1) = 365 * (c * 100 + q * 4) + (r - 1) := by omega
    rw [hone, hsum]
    omega

/-- The years before a day of an era, by another count. -/
theorem yearOfEra_eq {d : Int} (h0 : 0 ≤ d) (h : d < 146097) :
    (d - d / 1460 + d / 36524 - d / 146096) / 365 = yearOfEra d := by
  have hcentury : d / 36524 - d / 146096 = century d ∧ 0 ≤ century d ∧ century d ≤ 3 ∧ 0 ≤ d - century d * 36524 ∧
      d - century d * 36524 ≤ 36524 := by
    unfold century
    omega
  have hrest := Int.emod_add_mul_ediv (d - century d * 36524) 1461
  have hmod := Int.emod_nonneg (d - century d * 36524) (show (1461 : Int) ≠ 0 by decide)
  have hlt := Int.emod_lt_of_pos (d - century d * 36524) (show (0 : Int) < 1461 by decide)
  have hfour : 0 ≤ fourYears d ∧ fourYears d ≤ 24 := by
    unfold fourYears
    omega
  have hd : d = 36524 * century d + 1461 * fourYears d + (d - century d * 36524) % 1461 := by
    unfold fourYears
    omega
  have hsum : d - d / 1460 + d / 36524 - d / 146096 = d + century d - d / 1460 := by omega
  have hparts := year_of_parts hcentury.2.1 hcentury.2.2.1 hfour.1 hfour.2 hmod (by omega)
  rw [← hd] at hparts
  rw [hsum, hparts]
  rfl

/-- The first of January. -/
def yearStart (year : Int) : Int := dayNumber ⟨year, 1, 1⟩

theorem yearStart_eq (year : Int) :
    yearStart year = 365 * (year - 1) + (year - 1) / 4 - (year - 1) / 100 + (year - 1) / 400 - 719162 := by
  have hfirst : (1 : Int) ≤ 2 := by decide
  have hmarch : ¬(1 : Int) > 2 := by decide
  unfold yearStart dayNumber
  simp only [hfirst, if_true, hmarch, if_false]
  omega

/-- A day is in the year of its date. -/
theorem year_ofDay_bounds (n : Int) : yearStart (ofDay n).year ≤ n ∧ n < yearStart ((ofDay n).year + 1) := by
  have hmod := Int.emod_nonneg (n + 719468) (show (146097 : Int) ≠ 0 by decide)
  have hlt := Int.emod_lt_of_pos (n + 719468) (show (0 : Int) < 146097 by decide)
  have hdiv := Int.emod_add_mul_ediv (n + 719468) 146097
  obtain ⟨hy0, hy, hd0, hd, hday⟩ := dayOfEra_eq hmod hlt
  rw [yearStart_eq, yearStart_eq]
  unfold ofDay monthOf
  dsimp only
  generalize yearOfEra ((n + 719468) % 146097) = y at *
  generalize dayOfYear ((n + 719468) % 146097) = d at *
  generalize (n + 719468) / 146097 = era at *
  generalize (n + 719468) % 146097 = dayOfEra at *
  have hn : n = era * 146097 + (y * 365 + y / 4 - y / 100 + d) - 719468 := by omega
  subst hn
  clear hdiv hday hlt hmod
  split <;> split <;> omega

theorem yearStart_mono {year year' : Int} (h : year ≤ year') : yearStart year ≤ yearStart year' := by
  rw [yearStart_eq, yearStart_eq]
  omega

theorem yearStart_succ_le (year : Int) : yearStart (year + 1) ≤ yearStart year + 366 := by
  rw [yearStart_eq, yearStart_eq]
  omega

/-! ## Dates -/

def isLeap (year : Int) : Bool := year % 4 = 0 && (year % 100 ≠ 0 || year % 400 = 0)

def daysInMonth (year month : Int) : Int :=
  if month = 2 then if isLeap year then 29 else 28
  else if month = 4 ∨ month = 6 ∨ month = 9 ∨ month = 11 then 30
  else 31

/-- A date that is there. -/
structure IsDate (date : Date) : Prop where
  month_pos : 1 ≤ date.month
  month_le : date.month ≤ 12
  day_pos : 1 ≤ date.day
  day_le : date.day ≤ daysInMonth date.year date.month

theorem yearStart_le_dayNumber {date : Date} (h : IsDate date) : yearStart date.year ≤ dayNumber date := by
  have hmonth := h.month_pos
  have hmonth' := h.month_le
  have hday := h.day_pos
  rw [yearStart_eq]
  unfold dayNumber
  dsimp only
  split <;> split <;> omega

end Calendar
