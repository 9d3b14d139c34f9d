import AdWiki.Backups.Retention
import AdWiki.Backups.ScheduledRuns
import AdWiki.Lib.Separators

/-!
# The buckets of weeks

The key of a week is made of the year and the number of its Thursday. Dates are those that `formatToParts` reads in the
time zone of the plan.

* `utcYear_eq`: the year of a day is that of its date.
* `thursday_eq`: the Thursday of a date.
* `bucketKey_week_iff`: from the year 100 on, two dates have the same key exactly if they are in the same week.
-/

namespace AdWiki.Backups

open Calendar (IsDate yearStart)

/-- The date that is read at a time. -/
def dateAt (env : Env) (timezone : String) (time : Int) : Calendar.Date :=
  let parts := env.formatToParts timezone time
  ⟨parts.year, parts.month, parts.day⟩

/-- A week from Monday to Sunday has both dates. -/
def SameWeek (a b : Calendar.Date) : Prop :=
  ∃ monday, weekday monday = 1 ∧ (monday ≤ Calendar.dayNumber a ∧ Calendar.dayNumber a ≤ monday + 6) ∧
    monday ≤ Calendar.dayNumber b ∧ Calendar.dayNumber b ≤ monday + 6

/-- The Thursday of the week of a day. -/
def thursday (day : Int) : Int := (day + 3) / 7 * 7

variable {env : Env} {timezone : String} {a b : Calendar.Date} {day year week week' : Int}

theorem sameWeek_iff : SameWeek a b ↔ thursday (Calendar.dayNumber a) = thursday (Calendar.dayNumber b) := by
  unfold SameWeek thursday weekday
  constructor
  · rintro ⟨monday, hmonday, ⟨ha, ha'⟩, hb, hb'⟩
    omega
  · intro h
    exact ⟨(Calendar.dayNumber a + 3) / 7 * 7 - 3, by omega, ⟨by omega, by omega⟩, by omega, by omega⟩

/-! ## The week of a date -/

theorem utcYear_eq (day : Int) : utcYear day = (Calendar.ofDay day).year := by
  have hmod := Int.emod_nonneg (day + 719468) (show (146097 : Int) ≠ 0 by decide)
  have hlt := Int.emod_lt_of_pos (day + 719468) (show (0 : Int) < 146097 by decide)
  have hera : day + 719468 - (day + 719468) / 146097 * 146097 = (day + 719468) % 146097 := by omega
  obtain ⟨hy0, hy, hd0, hd, hday⟩ := Calendar.dayOfEra_eq hmod hlt
  unfold utcYear Calendar.ofDay Calendar.monthOf
  dsimp only
  rw [hera, Calendar.yearOfEra_eq hmod hlt]
  generalize Calendar.yearOfEra ((day + 719468) % 146097) = y at *
  generalize Calendar.dayOfYear ((day + 719468) % 146097) = d at *
  generalize (day + 719468) % 146097 = dayOfEra at *
  have hrest : dayOfEra - (365 * y + y / 4 - y / 100) = d := by omega
  rw [hrest]
  split <;> split <;> split <;> omega

/-- The Thursday that `isoWeek` takes. -/
theorem thursday_eq (h : 100 ≤ a.year) :
    utcDay a.year a.month a.day + 4 - isoWeekday a.year a.month a.day = thursday (Calendar.dayNumber a) := by
  unfold isoWeekday thursday
  rw [utcDay_eq h]
  dsimp only
  split <;> omega

/-- The Thursday is in the year of its key, or in the last days before the year 100. -/
theorem weekYear_bounds (h : 100 ≤ a.year) (ha : IsDate a) :
    99 ≤ utcYear (thursday (Calendar.dayNumber a)) ∧
      yearStart (utcYear (thursday (Calendar.dayNumber a))) ≤ thursday (Calendar.dayNumber a) ∧
      thursday (Calendar.dayNumber a) < yearStart (utcYear (thursday (Calendar.dayNumber a)) + 1) := by
  obtain ⟨hstart, hend⟩ := Calendar.year_ofDay_bounds (thursday (Calendar.dayNumber a))
  rw [utcYear_eq]
  refine ⟨?_, hstart, hend⟩
  by_contra hyear
  have hdate := Calendar.yearStart_le_dayNumber ha
  have hhundred := Calendar.yearStart_mono h
  have hbefore := @Calendar.yearStart_mono ((Calendar.ofDay (thursday (Calendar.dayNumber a))).year + 1) 99 (by omega)
  have hlast : yearStart 99 + 365 = yearStart 100 := by decide
  unfold thursday at *
  omega

/-! ## Keys -/

theorem toList_toString {n : Int} (h : 0 ≤ n) : (toString n).toList = Nat.toDigits 10 n.toNat := by
  obtain ⟨k, rfl⟩ := Int.eq_ofNat_of_zero_le h
  exact String.toList_ofList

theorem toNat_toString {n : Int} (h : 0 ≤ n) : (Nat.ofDigitChars 10 (toString n).toList 0 : Int) = n := by
  rw [toList_toString h, Nat.ofDigitChars_ten_toDigits, Int.toNat_of_nonneg h]

/-- The digits of a year end at the hyphen. -/
theorem hyphen_not_mem {n : Int} (h : 0 ≤ n) : '-' ∉ (toString n).toList := by
  rw [toList_toString h]
  intro hmem
  have hdigit := Nat.isDigit_of_mem_toDigits (b := 10) (by decide) (by decide) hmem
  cases hdigit

/-- The texts of the weeks of a year are different. -/
theorem toNat_padStart : ∀ week < 54, Nat.ofDigitChars 10 (padStart (week : Nat)).toList 0 = week := by decide +kernel

theorem key_eq_iff {year' : Int} (hyear : 0 ≤ year) (hyear' : 0 ≤ year') :
    toString year ++ "-W" ++ padStart week = toString year' ++ "-W" ++ padStart week' ↔
      year = year' ∧ padStart week = padStart week' := by
  constructor
  · intro h
    have hchars := congrArg String.toList h
    simp only [String.toList_append, List.append_assoc] at hchars
    have hsplit : (toString year).toList ++ '-' :: 'W' :: (padStart week).toList =
        (toString year').toList ++ '-' :: 'W' :: (padStart week').toList := hchars
    obtain ⟨hdigits, hweek⟩ := Separators.append_inj_first (hyphen_not_mem hyear) (hyphen_not_mem hyear') hsplit
    have hvalue := toNat_toString hyear
    rw [hdigits, toNat_toString hyear'] at hvalue
    exact ⟨hvalue.symm, String.toList_inj.mp (List.cons.inj hweek).2⟩
  · rintro ⟨rfl, h⟩
    rw [h]

theorem bucketKey_week {time : Int} (h : 100 ≤ (dateAt env timezone time).year) :
    bucketKey env timezone time .week =
      toString (utcYear (thursday (Calendar.dayNumber (dateAt env timezone time)))) ++ "-W" ++
        padStart ((thursday (Calendar.dayNumber (dateAt env timezone time)) -
          utcDay (utcYear (thursday (Calendar.dayNumber (dateAt env timezone time)))) 1 1 + 7) / 7) := by
  rw [← thursday_eq h]
  rfl

/-- Two Thursdays of a year with the same number are the same. -/
theorem thursday_inj {n m : Int} (hn : thursday n = n) (hm : thursday m = m) (hyear : 100 ≤ year)
    (hn0 : yearStart year ≤ n) (hn1 : n < yearStart (year + 1)) (hm0 : yearStart year ≤ m)
    (hm1 : m < yearStart (year + 1))
    (h : padStart ((n - utcDay year 1 1 + 7) / 7) = padStart ((m - utcDay year 1 1 + 7) / 7)) : n = m := by
  have hlength := Calendar.yearStart_succ_le year
  have hstart : utcDay year 1 1 = yearStart year := @utcDay_eq ⟨year, 1, 1⟩ hyear
  rw [hstart] at h
  obtain ⟨v, hv⟩ := Int.eq_ofNat_of_zero_le (show 0 ≤ (n - yearStart year + 7) / 7 by omega)
  obtain ⟨w, hw⟩ := Int.eq_ofNat_of_zero_le (show 0 ≤ (m - yearStart year + 7) / 7 by omega)
  rw [hv, hw] at h
  have hvalue := toNat_padStart v (by omega)
  rw [h, toNat_padStart w (by omega)] at hvalue
  unfold thursday at hn hm
  omega

theorem thursday_thursday (day : Int) : thursday (thursday day) = thursday day := by
  unfold thursday
  omega

/-- **The key of a week stands for the days from Monday to Sunday.** -/
theorem bucketKey_week_iff {time time' : Int} (ha : IsDate (dateAt env timezone time))
    (ha' : 100 ≤ (dateAt env timezone time).year)
    (hb : IsDate (dateAt env timezone time')) (hb' : 100 ≤ (dateAt env timezone time').year) :
    bucketKey env timezone time .week = bucketKey env timezone time' .week ↔
      SameWeek (dateAt env timezone time) (dateAt env timezone time') := by
  obtain ⟨hyear, hstart, hend⟩ := weekYear_bounds ha' ha
  obtain ⟨hyear', hstart', hend'⟩ := weekYear_bounds hb' hb
  rw [sameWeek_iff, bucketKey_week ha', bucketKey_week hb', key_eq_iff (by omega) (by omega)]
  constructor
  · rintro ⟨hsame, hweek⟩
    rw [← hsame] at hweek hstart' hend'
    by_cases hhundred : 100 ≤ utcYear (thursday (Calendar.dayNumber (dateAt env timezone time)))
    · exact thursday_inj (thursday_thursday _) (thursday_thursday _) hhundred hstart hend hstart' hend' hweek
    · -- both are in the last days before the year 100
      have hdate := Int.le_trans (Calendar.yearStart_mono ha') (Calendar.yearStart_le_dayNumber ha)
      have hdate' := Int.le_trans (Calendar.yearStart_mono hb') (Calendar.yearStart_le_dayNumber hb)
      have hlast :=
        Calendar.yearStart_mono
          (show utcYear (thursday (Calendar.dayNumber (dateAt env timezone time))) + 1 ≤ 100 by omega)
      unfold thursday at *
      omega
  · intro h
    rw [h]
    exact ⟨rfl, rfl⟩

namespace Demo

/-- The turn of the year 2026, a day for each time. -/
def newYear : Env where
  formatToParts _ time := if time < 0 then ⟨2026, 12, 31, 0, 0⟩ else ⟨2027, 1, 1, 0, 0⟩

theorem isDate_newYear (time : Int) : IsDate (dateAt newYear "UTC" time) := by
  unfold dateAt newYear
  dsimp only
  split
  · exact ⟨by decide, by decide, by decide, by decide⟩
  · exact ⟨by decide, by decide, by decide, by decide⟩

end Demo

/-- The last day of 2026 and the first one of 2027 are in the week 53. -/
theorem bucketKey_week_iff_newYear : bucketKey Demo.newYear "UTC" (-1) .week = "2026-W53" ∧
    (bucketKey Demo.newYear "UTC" (-1) .week = bucketKey Demo.newYear "UTC" 0 .week ↔
      SameWeek (dateAt Demo.newYear "UTC" (-1)) (dateAt Demo.newYear "UTC" 0)) :=
  ⟨by decide +kernel, bucketKey_week_iff (Demo.isDate_newYear _) (by decide) (Demo.isDate_newYear _) (by decide)⟩

end AdWiki.Backups
