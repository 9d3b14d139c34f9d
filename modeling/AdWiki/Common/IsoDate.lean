import Mathlib

/-!
# Dates and ids as texts

A date is what a row's column holds: the fields of a time in UTC, to the millisecond, of a year with four digits. The
checks of `z.string().datetime()` and `z.string().uuid()` are here because every text that is checked by them is the
text of such a date, or an id.
-/

namespace AdWiki

/-! ## Digits -/

/-- The last `n` decimal digits of a number. -/
def digits : Nat → Nat → List Char
  | 0, _ => []
  | n + 1, k => digits n (k / 10) ++ [Char.ofNat (48 + k % 10)]

@[simp] theorem length_digits (n k : Nat) : (digits n k).length = n := by
  induction n generalizing k with
  | zero => rfl
  | succ n ih => simp [digits, ih]

theorem isDigit_digit : ∀ d < 10, (Char.ofNat (48 + d)).isDigit = true ∧ (Char.ofNat (48 + d)).toNat - 48 = d := by decide

theorem isDigit_digits (n k : Nat) : ∀ c ∈ digits n k, c.isDigit = true := by
  induction n generalizing k with
  | zero => simp [digits]
  | succ n ih =>
    intro c hc
    rcases List.mem_append.mp hc with hc | hc
    · exact ih (k / 10) c hc
    · rw [List.mem_singleton.mp hc]
      exact (isDigit_digit (k % 10) (Nat.mod_lt _ (by decide))).1

theorem ofDigitChars_digits {n k : Nat} (h : k < 10 ^ n) : Nat.ofDigitChars 10 (digits n k) 0 = k := by
  induction n generalizing k with
  | zero =>
    obtain rfl : k = 0 := by simpa using h
    rfl
  | succ n ih =>
    have hdiv : k / 10 < 10 ^ n := Nat.div_lt_of_lt_mul (by rw [Nat.pow_succ] at h; omega)
    have hlast := (isDigit_digit (k % 10) (Nat.mod_lt _ (by decide))).2
    rw [digits, Nat.ofDigitChars_append, ih hdiv, Nat.ofDigitChars_cons, Nat.ofDigitChars_nil,
      show '0'.toNat = 48 from rfl, hlast]
    omega

/-! ## Dates -/

def isLeapYear (year : Nat) : Bool := year % 4 == 0 && (year % 100 != 0 || year % 400 == 0)

def daysInMonth (year month : Nat) : Nat :=
  if month = 2 then if isLeapYear year then 29 else 28
  else if month = 4 ∨ month = 6 ∨ month = 9 ∨ month = 11 then 30 else 31

structure IsoDate where
  year : Nat
  month : Nat
  day : Nat
  hour : Nat
  minute : Nat
  second : Nat
  millisecond : Nat
  date_valid : year < 10000 ∧ 1 ≤ month ∧ month ≤ 12 ∧ 1 ≤ day ∧ day ≤ daysInMonth year month
  time_valid : hour < 24 ∧ minute < 60 ∧ second < 60 ∧ millisecond < 1000
  deriving DecidableEq, Repr

namespace IsoDate

variable (date : IsoDate)

def dateText : List Char := digits 4 date.year ++ '-' :: digits 2 date.month ++ '-' :: digits 2 date.day

def timeText : List Char :=
  digits 2 date.hour ++ ':' :: digits 2 date.minute ++ ':' :: digits 2 date.second ++ '.' :: digits 3 date.millisecond

/-- `date.toISOString()`. -/
def toISOString : String := String.ofList (date.dateText ++ 'T' :: date.timeText ++ ['Z'])

/-! ### Reading -/

/-- A number of exactly `n` digits. -/
def field (n : Nat) (cs : List Char) : Option Nat :=
  if cs.length = n ∧ cs.all Char.isDigit then some (Nat.ofDigitChars 10 cs 0) else none

/-- Seconds and milliseconds; further digits of the fraction are dropped. -/
def seconds (cs : List Char) : Option (Nat × Nat) :=
  match cs.splitOn '.' with
  | [second] => (field 2 second).map fun second => (second, 0)
  | [second, fraction] =>
    if fraction.isEmpty ∨ ¬fraction.all Char.isDigit then none
    else (field 2 second).map fun second => (second, Nat.ofDigitChars 10 ((fraction ++ ['0', '0', '0']).take 3) 0)
  | _ => none

def ofFields (year month day hour minute : Nat) (second : Nat × Nat) : Option IsoDate :=
  if h : (year < 10000 ∧ 1 ≤ month ∧ month ≤ 12 ∧ 1 ≤ day ∧ day ≤ daysInMonth year month) ∧
      hour < 24 ∧ minute < 60 ∧ second.1 < 60 ∧ second.2 < 1000 then
    some ⟨year, month, day, hour, minute, second.1, second.2, h.1, h.2⟩
  else none

/-- The date of a text that `z.string().datetime()` accepts. -/
def ofText (text : String) : Option IsoDate :=
  match text.toList.splitOn 'T' with
  | [date, time] =>
    if time.getLast? = some 'Z' then
      match date.splitOn '-', time.dropLast.splitOn ':' with
      | [year, month, day], hour :: minute :: rest => do
        let year ← field 4 year
        let month ← field 2 month
        let day ← field 2 day
        let hour ← field 2 hour
        let minute ← field 2 minute
        let second ← match rest with
          | [] => some (0, 0)
          | [second] => seconds second
          | _ => none
        ofFields year month day hour minute second
      | _, _ => none
    else none
  | _ => none

theorem field_digits {n k : Nat} (h : k < 10 ^ n) : field n (digits n k) = some k := by
  rw [field, if_pos ⟨length_digits n k, List.all_eq_true.mpr (isDigit_digits n k)⟩, ofDigitChars_digits h]

theorem not_mem_digits {c : Char} (hc : c.isDigit = false) (n k : Nat) : c ∉ digits n k := by
  intro h
  rw [isDigit_digits n k c h] at hc
  cases hc

theorem splitOn_digits {c : Char} (hc : c.isDigit = false) (n k : Nat) (cs : List Char) :
    (digits n k ++ c :: cs).splitOn c = digits n k :: cs.splitOn c :=
  List.splitOn_append_cons_self_of_not_mem (not_mem_digits hc n k) cs

theorem seconds_digits {second millisecond : Nat} (hsecond : second < 60) (hmillisecond : millisecond < 1000) :
    seconds (digits 2 second ++ '.' :: digits 3 millisecond) = some (second, millisecond) := by
  have hsplit :
      (digits 2 second ++ '.' :: digits 3 millisecond).splitOn '.' = [digits 2 second, digits 3 millisecond] := by
    rw [splitOn_digits rfl, List.splitOn_eq_singleton (not_mem_digits rfl 3 millisecond)]
  have hne : ¬((digits 3 millisecond).isEmpty = true ∨ ¬(digits 3 millisecond).all Char.isDigit = true) := by
    rintro (hempty | hall)
    · have hlength := length_digits 3 millisecond
      rw [List.isEmpty_iff.mp hempty] at hlength
      cases hlength
    · exact hall (List.all_eq_true.mpr (isDigit_digits 3 millisecond))
  have htake : (digits 3 millisecond ++ ['0', '0', '0']).take 3 = digits 3 millisecond := by
    rw [List.take_append_of_le_length (by simp), List.take_of_length_le (by simp)]
  rw [seconds, hsplit]
  simp only [if_neg hne, htake, ofDigitChars_digits (show millisecond < 10 ^ 3 by omega),
    field_digits (show second < 10 ^ 2 by omega), Option.map_some]

theorem splitOn_dateText (date : IsoDate) :
    date.dateText.splitOn '-' = [digits 4 date.year, digits 2 date.month, digits 2 date.day] := by
  rw [dateText, List.append_assoc, List.cons_append, splitOn_digits rfl, splitOn_digits rfl,
    List.splitOn_eq_singleton (not_mem_digits rfl 2 date.day)]

theorem splitOn_timeText (date : IsoDate) : date.timeText.splitOn ':' =
    [digits 2 date.hour, digits 2 date.minute, digits 2 date.second ++ '.' :: digits 3 date.millisecond] := by
  have hlast : ':' ∉ digits 2 date.second ++ '.' :: digits 3 date.millisecond := by
    intro h
    rcases List.mem_append.mp h with h | h
    · exact not_mem_digits rfl _ _ h
    · rcases List.mem_cons.mp h with h | h
      · cases h
      · exact not_mem_digits rfl _ _ h
  have htext : date.timeText =
      digits 2 date.hour ++ ':' ::
        (digits 2 date.minute ++ ':' :: (digits 2 date.second ++ '.' :: digits 3 date.millisecond)) := by
    simp [timeText]
  rw [htext, splitOn_digits rfl, splitOn_digits rfl, List.splitOn_eq_singleton hlast]

/-- The characters of a date and its time are digits and signs. -/
theorem mem_dateText {date : IsoDate} {c : Char} (h : c ∈ date.dateText) : c.isDigit = true ∨ c = '-' := by
  simp only [dateText, List.mem_append, List.mem_cons] at h
  rcases h with (h | rfl | h) | rfl | h
  · exact Or.inl (isDigit_digits _ _ c h)
  · exact Or.inr rfl
  · exact Or.inl (isDigit_digits _ _ c h)
  · exact Or.inr rfl
  · exact Or.inl (isDigit_digits _ _ c h)

theorem mem_timeText {date : IsoDate} {c : Char} (h : c ∈ date.timeText) : c.isDigit = true ∨ c = ':' ∨ c = '.' := by
  simp only [timeText, List.mem_append, List.mem_cons] at h
  rcases h with ((h | rfl | h) | rfl | h) | rfl | h
  · exact Or.inl (isDigit_digits _ _ c h)
  · exact Or.inr (Or.inl rfl)
  · exact Or.inl (isDigit_digits _ _ c h)
  · exact Or.inr (Or.inl rfl)
  · exact Or.inl (isDigit_digits _ _ c h)
  · exact Or.inr (Or.inr rfl)
  · exact Or.inl (isDigit_digits _ _ c h)

theorem splitOn_text (date : IsoDate) :
    date.toISOString.toList.splitOn 'T' = [date.dateText, date.timeText ++ ['Z']] := by
  have hdate : 'T' ∉ date.dateText := by
    intro h
    rcases mem_dateText h with h | h <;> cases h
  have htime : 'T' ∉ date.timeText ++ ['Z'] := by
    intro h
    rcases List.mem_append.mp h with h | h
    · rcases mem_timeText h with h | h | h <;> cases h
    · simp at h
  have htext : date.toISOString.toList = date.dateText ++ 'T' :: (date.timeText ++ ['Z']) := by
    simp [toISOString]
  rw [htext, List.splitOn_append_cons_self_of_not_mem hdate, List.splitOn_eq_singleton htime]

/-- The text of a date is read back. -/
theorem ofText_toISOString (date : IsoDate) : ofText date.toISOString = some date := by
  have hdate := date.date_valid
  have htime := date.time_valid
  have hday : date.day < 10 ^ 2 := by
    have hdays : daysInMonth date.year date.month ≤ 31 := by
      unfold daysInMonth
      split
      · split <;> omega
      · split <;> omega
    omega
  have hfields :
      ofFields date.year date.month date.day date.hour date.minute (date.second, date.millisecond) = some date := by
    rw [ofFields, dif_pos ⟨hdate, htime⟩]
  have hlast : (date.timeText ++ ['Z']).getLast? = some 'Z' := by simp
  rw [ofText, splitOn_text]
  simp only [hlast, List.dropLast_concat, if_true, splitOn_dateText, splitOn_timeText,
    field_digits (show date.year < 10 ^ 4 by omega), field_digits (show date.month < 10 ^ 2 by omega), field_digits hday,
    field_digits (show date.hour < 10 ^ 2 by omega), field_digits (show date.minute < 10 ^ 2 by omega),
    seconds_digits htime.2.2.1 htime.2.2.2, Option.bind_eq_bind, Option.bind_some, hfields]

/-! ### Order -/

/-- A number that grows with the time. -/
def stamp : Nat :=
  (((((date.year * 12 + (date.month - 1)) * 31 + (date.day - 1)) * 24 + date.hour) * 60 + date.minute) * 60 +
    date.second) * 1000 +
    date.millisecond

theorem day_le (date : IsoDate) : date.day ≤ 31 := by
  have hday := date.date_valid.2.2.2.2
  unfold daysInMonth at hday
  split at hday
  · split at hday <;> omega
  · split at hday <;> omega

theorem stamp_injective : Function.Injective stamp := by
  intro a b h
  obtain ⟨-, ha, ha', ha'', -⟩ := a.date_valid
  obtain ⟨-, hb, hb', hb'', -⟩ := b.date_valid
  obtain ⟨hah, ham, has, hams⟩ := a.time_valid
  obtain ⟨hbh, hbm, hbs, hbms⟩ := b.time_valid
  have haday := a.day_le
  have hbday := b.day_le
  unfold stamp at h
  have hmillisecond : a.millisecond = b.millisecond := by omega
  have hsecond : a.second = b.second := by omega
  have hminute : a.minute = b.minute := by omega
  have hhour : a.hour = b.hour := by omega
  have hday : a.day = b.day := by omega
  have hmonth : a.month = b.month := by omega
  have hyear : a.year = b.year := by omega
  cases a
  cases b
  simp_all

/-- The earlier date first. -/
instance : LinearOrder IsoDate := LinearOrder.lift' stamp stamp_injective

end IsoDate

/-! ## Ids -/

def isHexDigit (c : Char) : Bool := c.isDigit || ('a' ≤ c && c ≤ 'f') || ('A' ≤ c && c ≤ 'F')

/-- `z.string().uuid()`. -/
def isUuid (id : String) : Bool :=
  let parts := id.toList.splitOn '-'
  parts.map List.length == [8, 4, 4, 4, 12] && parts.all fun part => part.all isHexDigit

/-- The id that the database gives to a row. -/
structure Uuid where
  text : String
  valid : isUuid text = true
  deriving DecidableEq, Repr

theorem uuid_parts {id : String} (h : isUuid id = true) : ∃ a b c d e : List Char,
    id.toList = a ++ '-' :: (b ++ '-' :: (c ++ '-' :: (d ++ '-' :: e))) ∧
      (a.length = 8 ∧ b.length = 4 ∧ c.length = 4 ∧ d.length = 4 ∧ e.length = 12) ∧
      ∀ part ∈ [a, b, c, d, e], ∀ x ∈ part, isHexDigit x = true := by
  simp only [isUuid, Bool.and_eq_true, beq_iff_eq, List.all_eq_true] at h
  obtain ⟨hlengths, hhex⟩ := h
  have htext : ['-'].intercalate (id.toList.splitOn '-') = id.toList := List.intercalate_splitOn '-'
  obtain ⟨a, l, hparts, ha, hlengths⟩ := List.map_eq_cons_iff.mp hlengths
  obtain ⟨b, l, rfl, hb, hlengths⟩ := List.map_eq_cons_iff.mp hlengths
  obtain ⟨c, l, rfl, hc, hlengths⟩ := List.map_eq_cons_iff.mp hlengths
  obtain ⟨d, l, rfl, hd, hlengths⟩ := List.map_eq_cons_iff.mp hlengths
  obtain ⟨e, l, rfl, he, hlengths⟩ := List.map_eq_cons_iff.mp hlengths
  obtain rfl := List.map_eq_nil_iff.mp hlengths
  rw [hparts] at htext hhex
  refine ⟨a, b, c, d, e, ?_, ⟨ha, hb, hc, hd, he⟩, hhex⟩
  rw [← htext]
  simp

/-- An id has hexadecimal digits and hyphens. -/
theorem mem_uuid {id : String} (h : isUuid id = true) {x : Char} (hx : x ∈ id.toList) :
    isHexDigit x = true ∨ x = '-' := by
  obtain ⟨a, b, c, d, e, htext, -, hhex⟩ := uuid_parts h
  simp only [htext, List.mem_append, List.mem_cons] at hx
  simp only [List.mem_cons, List.not_mem_nil, or_false] at hhex
  rcases hx with hx | rfl | hx | rfl | hx | rfl | hx | rfl | hx
  · exact Or.inl (hhex a (by simp) x hx)
  · exact Or.inr rfl
  · exact Or.inl (hhex b (by simp) x hx)
  · exact Or.inr rfl
  · exact Or.inl (hhex c (by simp) x hx)
  · exact Or.inr rfl
  · exact Or.inl (hhex d (by simp) x hx)
  · exact Or.inr rfl
  · exact Or.inl (hhex e (by simp) x hx)

theorem length_uuid {id : String} (h : isUuid id = true) : id.toList.length = 36 := by
  obtain ⟨a, b, c, d, e, htext, hlengths, -⟩ := uuid_parts h
  simp only [htext, List.length_append, List.length_cons]
  omega

end AdWiki
