import Mathlib

/-!
# JSON texts

Values, a printer and a reader. A number is kept as it is written (`Number`), and `toNat?` says when it is natural; an
object keeps its members as they are written, and `get?` reads the last one of a name, as an assignment would leave it.

The printer has a layout: what stands before an item at each depth, and after a colon. `read_print` says that the reader
takes back what was printed, whatever the layout, as long as it is white space.
-/

namespace Json

/-! ## Numbers -/

def isSpace (c : Char) : Bool := c == ' ' || c == '\n' || c == '\r' || c == '\t'

def isNumberChar (c : Char) : Bool := c.isDigit || c == '-' || c == '+' || c == '.' || c == 'e' || c == 'E'

/-- Whether digits follow, and only digits. -/
def allDigits (cs : List Char) : Bool := !cs.isEmpty && cs.all Char.isDigit

/-- An exponent: nothing, or `e` with a signed number. -/
def isExponent : List Char → Bool
  | [] => true
  | e :: cs =>
    (e == 'e' || e == 'E') &&
      match cs with
      | sign :: digits => if sign == '+' || sign == '-' then allDigits digits else allDigits cs
      | [] => false

/-- A fraction with an exponent. -/
def isFraction : List Char → Bool
  | [] => true
  | c :: cs =>
    if c == '.' then allDigits (cs.takeWhile Char.isDigit) && isExponent (cs.dropWhile Char.isDigit)
      else isExponent (c :: cs)

/-- The digits of a number without a sign: no zero stands in front. -/
def isUnsigned (cs : List Char) : Bool :=
  let digits := cs.takeWhile Char.isDigit
  (digits == ['0'] || (allDigits digits && digits.head? != some '0')) && isFraction (cs.dropWhile Char.isDigit)

/-- The texts of numbers. -/
def isNumber : List Char → Bool
  | '-' :: cs => isUnsigned cs
  | cs => isUnsigned cs

/-- The text of a number. -/
structure Number where
  literal : List Char
  valid : isNumber literal = true
  deriving DecidableEq

namespace Number

/-- An exponent without its letter. -/
def exponent : List Char → Int
  | [] => 0
  | sign :: digits =>
    if sign = '-' then -(Nat.ofDigitChars 10 digits 0 : Int)
    else if sign = '+' then Nat.ofDigitChars 10 digits 0
    else Nat.ofDigitChars 10 (sign :: digits) 0

/-- The value without its sign: digits, and the power of ten they are multiplied with. -/
def decimal (cs : List Char) : Nat × Int :=
  let whole := cs.takeWhile Char.isDigit
  match cs.dropWhile Char.isDigit with
  | [] => (Nat.ofDigitChars 10 whole 0, 0)
  | c :: cs =>
    if c = '.' then
      let fraction := cs.takeWhile Char.isDigit
      (Nat.ofDigitChars 10 (whole ++ fraction) 0, exponent ((cs.dropWhile Char.isDigit).drop 1) - fraction.length)
    else (Nat.ofDigitChars 10 whole 0, exponent cs)

/-- The value, if it is a natural number. -/
def toNat? (n : Number) : Option Nat :=
  let (negative, cs) := match n.literal with
    | '-' :: cs => (true, cs)
    | cs => (false, cs)
  let (mantissa, power) := decimal cs
  let value : Option Nat :=
    if 0 ≤ power then some (mantissa * 10 ^ power.toNat)
    else if mantissa % 10 ^ power.natAbs = 0 then some (mantissa / 10 ^ power.natAbs)
    else none
  value.filter fun value => !negative || value == 0

/-- Digits in front of nothing. -/
theorem takeWhile_toDigits (n : Nat) : (Nat.toDigits 10 n).takeWhile Char.isDigit = Nat.toDigits 10 n ∧
    (Nat.toDigits 10 n).dropWhile Char.isDigit = [] := by
  have hall : ∀ c ∈ Nat.toDigits 10 n, c.isDigit = true :=
    fun c hc => Nat.isDigit_of_mem_toDigits (by decide) (by decide) hc
  have htake : (Nat.toDigits 10 n ++ []).takeWhile Char.isDigit = _ := List.takeWhile_append_of_pos hall
  have hdrop : (Nat.toDigits 10 n ++ []).dropWhile Char.isDigit = _ := List.dropWhile_append_of_pos hall
  simp only [List.append_nil, List.takeWhile_nil, List.dropWhile_nil] at htake hdrop
  exact ⟨htake, hdrop⟩

/-- No zero stands in front of the digits of a number. -/
theorem head_toDigits (n : Nat) : Nat.toDigits 10 n = ['0'] ∨ (Nat.toDigits 10 n).head? ≠ some '0' := by
  induction n using Nat.strongRecOn with
  | ind n ih =>
    rw [Nat.toDigits_eq_if (by decide)]
    split
    · next h =>
      have hcases : ∀ d < 10, [Nat.digitChar d] = ['0'] ∨ [Nat.digitChar d].head? ≠ some '0' := by decide
      exact hcases n h
    · next h =>
      have hne : Nat.toDigits 10 (n / 10) ≠ [] := Nat.toDigits_ne_nil
      have hvalue : Nat.toDigits 10 (n / 10) ≠ ['0'] := by
        intro heq
        have hdigits := Nat.ofDigitChars_ten_toDigits (n := n / 10)
        rw [heq] at hdigits
        have : n / 10 = 0 := hdigits.symm
        omega
      rw [List.head?_append_of_ne_nil _ hne]
      exact Or.inr ((ih (n / 10) (by omega)).resolve_left hvalue)

theorem isNumber_toDigits (n : Nat) : isNumber (Nat.toDigits 10 n) = true := by
  have hunsigned : isUnsigned (Nat.toDigits 10 n) = true := by
    obtain ⟨htake, hdrop⟩ := takeWhile_toDigits n
    have hall : allDigits (Nat.toDigits 10 n) = true := by
      rw [allDigits, Bool.and_eq_true, List.all_eq_true]
      exact ⟨by simp [Nat.toDigits_ne_nil], fun c hc => Nat.isDigit_of_mem_toDigits (by decide) (by decide) hc⟩
    rw [isUnsigned, htake, hdrop]
    rcases head_toDigits n with h | h
    · rw [h]
      rfl
    · simp [hall, h, isFraction]
  unfold isNumber
  split
  · next cs hcs =>
    have hminus := Nat.isDigit_of_mem_toDigits (b := 10) (n := n) (c := '-') (by decide) (by decide)
      (by rw [hcs]; exact List.mem_cons_self)
    cases hminus
  · exact hunsigned

/-- The number as it is printed. -/
def ofNat (n : Nat) : Number := ⟨Nat.toDigits 10 n, isNumber_toDigits n⟩

theorem toNat?_ofNat (n : Nat) : (ofNat n).toNat? = some n := by
  have hdecimal : decimal (Nat.toDigits 10 n) = (n, 0) := by
    obtain ⟨htake, hdrop⟩ := takeWhile_toDigits n
    rw [decimal, htake, hdrop, Nat.ofDigitChars_ten_toDigits]
  have hsign : (match Nat.toDigits 10 n with
      | '-' :: cs => (true, cs)
      | cs => (false, cs)) = (false, Nat.toDigits 10 n) := by
    split
    · next cs hcs =>
      have hminus := Nat.isDigit_of_mem_toDigits (b := 10) (n := n) (c := '-') (by decide) (by decide)
        (by rw [hcs]; exact List.mem_cons_self)
      cases hminus
    · rfl
  rw [toNat?, ofNat]
  simp [hsign, hdecimal]

end Number

end Json

inductive Json
  | null
  | bool (value : Bool)
  | number (value : Json.Number)
  | string (value : String)
  | array (items : List Json)
  | object (members : List (String × Json))

namespace Json

/-! ## Strings -/

def hexDigit (n : Nat) : Char := if n < 10 then Char.ofNat (48 + n) else Char.ofNat (87 + n)

def hexValue (c : Char) : Option Nat :=
  if c.isDigit then some (c.toNat - 48)
  else if 'a' ≤ c ∧ c ≤ 'f' then some (c.toNat - 87)
  else if 'A' ≤ c ∧ c ≤ 'F' then some (c.toNat - 55)
  else none

/-- The number that four digits after `\u` stand for. -/
def hex4 (a b c d : Char) : Option Nat := do
  let a ← hexValue a
  let b ← hexValue b
  let c ← hexValue c
  let d ← hexValue d
  return ((a * 16 + b) * 16 + c) * 16 + d

/-- A character between the quotes. -/
def escape (c : Char) : List Char :=
  if c = '"' then ['\\', '"']
  else if c = '\\' then ['\\', '\\']
  else if c = '\n' then ['\\', 'n']
  else if c = '\r' then ['\\', 'r']
  else if c = '\t' then ['\\', 't']
  else if c.toNat = 8 then ['\\', 'b']
  else if c.toNat = 12 then ['\\', 'f']
  else if c.toNat < 32 then ['\\', 'u', '0', '0', hexDigit (c.toNat / 16), hexDigit (c.toNat % 16)]
  else [c]

/-- What a letter after the backslash stands for. -/
def unescape (c : Char) : Option Char :=
  if c = '"' ∨ c = '\\' ∨ c = '/' then some c
  else if c = 'n' then some '\n'
  else if c = 'r' then some '\r'
  else if c = 't' then some '\t'
  else if c = 'b' then some (Char.ofNat 8)
  else if c = 'f' then some (Char.ofNat 12)
  else none

def isHigh (n : Nat) : Bool := 0xD800 ≤ n && n < 0xDC00

def isLow (n : Nat) : Bool := 0xDC00 ≤ n && n < 0xE000

/-- The character of a code unit; a lone half of a pair is replaced. -/
def ofUnit (n : Nat) : Char := if isHigh n || isLow n then Char.ofNat 0xFFFD else Char.ofNat n

/-! ## The printer -/

/-- What the printer puts before an item at a depth, and after a colon. -/
structure Layout where
  before : Nat → List Char
  colon : List Char
  before_space : ∀ depth, ∀ c ∈ before depth, isSpace c = true
  colon_space : ∀ c ∈ colon, isSpace c = true

/-- Nothing but the text. -/
def Layout.compact : Layout := ⟨fun _ => [], [], by simp, by simp⟩

/-- A line for every item, indented by its depth. -/
def Layout.indented (width : Nat) : Layout where
  before depth := '\n' :: List.replicate (width * depth) ' '
  colon := [' ']
  before_space depth c hc := by
    rcases List.mem_cons.mp hc with rfl | hc
    · rfl
    · rw [List.eq_of_mem_replicate hc]
      rfl
  colon_space c hc := by
    rw [List.mem_singleton.mp hc]
    rfl

def printString (s : String) : List Char := '"' :: s.toList.flatMap escape ++ ['"']

section Print

variable (layout : Layout)

mutual

def print (depth : Nat) : Json → List Char
  | .null => ['n', 'u', 'l', 'l']
  | .bool true => ['t', 'r', 'u', 'e']
  | .bool false => ['f', 'a', 'l', 's', 'e']
  | .number value => value.literal
  | .string value => printString value
  | .array [] => ['[', ']']
  | .array (item :: items) => '[' :: printItems (depth + 1) (item :: items) ++ layout.before depth ++ [']']
  | .object [] => ['{', '}']
  | .object (member :: members) => '{' :: printMembers (depth + 1) (member :: members) ++ layout.before depth ++ ['}']

def printItems (depth : Nat) : List Json → List Char
  | [] => []
  | [item] => layout.before depth ++ print depth item
  | item :: item' :: items => layout.before depth ++ print depth item ++ ',' :: printItems depth (item' :: items)

def printMembers (depth : Nat) : List (String × Json) → List Char
  | [] => []
  | [(name, value)] => layout.before depth ++ printString name ++ ':' :: layout.colon ++ print depth value
  | (name, value) :: member :: members =>
    layout.before depth ++ printString name ++ ':' :: layout.colon ++ print depth value ++
      ',' :: printMembers depth (member :: members)

end

end Print

/-! ## The reader -/

def skip : List Char → List Char
  | [] => []
  | c :: cs => if isSpace c then skip cs else c :: cs

/-- The code units between the quotes, and what comes after them. -/
def readUnits : List Char → Option (List Nat × List Char)
  | [] => none
  | c :: cs =>
    if c = '"' then some ([], cs)
    else if c = '\\' then
      match cs with
      | [] => none
      | e :: cs =>
        if e = 'u' then
          match cs with
          | a :: b :: c :: d :: cs => (hex4 a b c d).bind fun unit => (readUnits cs).map fun p => (unit :: p.1, p.2)
          | _ => none
        else (unescape e).bind fun c => (readUnits cs).map fun p => (c.toNat :: p.1, p.2)
    else if c.toNat < 32 then none
    else (readUnits cs).map fun p => (c.toNat :: p.1, p.2)

/-- The characters of code units: pairs are put together. -/
def combine : List Nat → List Char
  | [] => []
  | [unit] => [ofUnit unit]
  | high :: low :: units =>
    if isHigh high ∧ isLow low then Char.ofNat (0x10000 + (high - 0xD800) * 0x400 + (low - 0xDC00)) :: combine units
    else ofUnit high :: combine (low :: units)

def readString (cs : List Char) : Option (String × List Char) :=
  (readUnits cs).map fun p => (String.ofList (combine p.1), p.2)

mutual

/-- A value, and what comes after it. -/
def value : Nat → List Char → Option (Json × List Char)
  | 0, _ => none
  | fuel + 1, cs =>
    match skip cs with
    | [] => none
    | c :: cs =>
      if c = '"' then (readString cs).map fun p => (.string p.1, p.2)
      else if c = '[' then
        match skip cs with
        | [] => none
        | c :: cs => if c = ']' then some (.array [], cs) else (items fuel (c :: cs)).map fun p => (.array p.1, p.2)
      else if c = '{' then
        match skip cs with
        | [] => none
        | c :: cs => if c = '}' then some (.object [], cs) else (members fuel (c :: cs)).map fun p => (.object p.1, p.2)
      else if c = 'n' ∧ cs.take 3 = ['u', 'l', 'l'] then some (.null, cs.drop 3)
      else if c = 't' ∧ cs.take 3 = ['r', 'u', 'e'] then some (.bool true, cs.drop 3)
      else if c = 'f' ∧ cs.take 4 = ['a', 'l', 's', 'e'] then some (.bool false, cs.drop 4)
      else
        let literal := (c :: cs).takeWhile isNumberChar
        if h : isNumber literal = true then some (.number ⟨literal, h⟩, (c :: cs).dropWhile isNumberChar) else none

/-- The items of an array that has one, and what comes after its end. -/
def items : Nat → List Char → Option (List Json × List Char)
  | 0, _ => none
  | fuel + 1, cs =>
    (value fuel cs).bind fun item =>
      match skip item.2 with
      | [] => none
      | c :: cs =>
        if c = ']' then some ([item.1], cs)
        else if c = ',' then (items fuel cs).map fun p => (item.1 :: p.1, p.2)
        else none

/-- The members of an object that has one, and what comes after its end. -/
def members : Nat → List Char → Option (List (String × Json) × List Char)
  | 0, _ => none
  | fuel + 1, cs =>
    (member fuel cs).bind fun entry =>
      match skip entry.2 with
      | [] => none
      | c :: cs =>
        if c = '}' then some ([entry.1], cs)
        else if c = ',' then (members fuel cs).map fun p => (entry.1 :: p.1, p.2)
        else none

/-- A name with its value. -/
def member : Nat → List Char → Option ((String × Json) × List Char)
  | 0, _ => none
  | fuel + 1, cs =>
    match skip cs with
    | [] => none
    | c :: cs =>
      if c = '"' then
        (readString cs).bind fun name =>
          match skip name.2 with
          | [] => none
          | c :: cs => if c = ':' then (value fuel cs).map fun p => ((name.1, p.1), p.2) else none
      else none

end

/-- The value of a whole text. Every value and every list in it begins with a character of its own. -/
def parse (text : List Char) : Option Json :=
  (value (3 * text.length + 1) text).bind fun p => if (skip p.2).isEmpty then some p.1 else none

/-- The member of an object. -/
def get? (name : String) : Json → Option Json
  | .object members => members.reverse.lookup name
  | _ => none

/-! ## Reading what was printed -/

variable {cs ws rest : List Char} {c : Char}

theorem skip_append (h : ∀ c ∈ ws, isSpace c = true) : skip (ws ++ cs) = skip cs := by
  induction ws with
  | nil => rfl
  | cons c ws ih =>
    rw [List.cons_append, skip, if_pos (h c List.mem_cons_self)]
    exact ih fun c' hc' => h c' (List.mem_cons_of_mem _ hc')

theorem skip_cons (h : isSpace c = false) : skip (c :: cs) = c :: cs := by
  rw [skip, if_neg (by simp [h])]

/-! ### Strings -/

theorem hexValue_hexDigit : ∀ n < 16, hexValue (hexDigit n) = some n := by decide

theorem hex4_control {n : Nat} (h : n < 32) : hex4 '0' '0' (hexDigit (n / 16)) (hexDigit (n % 16)) = some n := by
  have hzero : hexValue '0' = some 0 := rfl
  have hhigh := hexValue_hexDigit (n / 16) (by omega)
  have hlow := hexValue_hexDigit (n % 16) (by omega)
  simp only [hex4, hzero, hhigh, hlow, Option.pure_def, Option.bind_eq_bind, Option.bind_some, Option.some.injEq]
  omega

theorem readUnits_backslash {e : Char} (he : e ≠ 'u') (hc : unescape e = some c) :
    readUnits ('\\' :: e :: rest) = (readUnits rest).map fun p => (c.toNat :: p.1, p.2) := by
  rw [readUnits.eq_def]
  simp [he, hc]

theorem readUnits_escape (c : Char) :
    readUnits (escape c ++ rest) = (readUnits rest).map fun p => (c.toNat :: p.1, p.2) := by
  unfold escape
  split
  · next h => exact readUnits_backslash (by decide) (by rw [h]; rfl)
  split
  · next h => exact readUnits_backslash (by decide) (by rw [h]; rfl)
  split
  · next h => exact readUnits_backslash (by decide) (by rw [h]; rfl)
  split
  · next h => exact readUnits_backslash (by decide) (by rw [h]; rfl)
  split
  · next h => exact readUnits_backslash (by decide) (by rw [h]; rfl)
  split
  · next h => rw [h]; exact readUnits_backslash (c := Char.ofNat 8) (by decide) rfl
  split
  · next h => rw [h]; exact readUnits_backslash (c := Char.ofNat 12) (by decide) rfl
  split
  · next h =>
    have hhex := hex4_control h
    rw [List.cons_append, readUnits.eq_def]
    simp [hhex]
  · next hquote hback _ _ _ _ _ hcontrol =>
    rw [List.singleton_append, readUnits.eq_def]
    simp [hquote, hback, hcontrol]

theorem readUnits_string (l : List Char) :
    readUnits (l.flatMap escape ++ '"' :: rest) = some (l.map Char.toNat, rest) := by
  induction l with
  | nil =>
    rw [List.flatMap_nil, List.nil_append, readUnits.eq_def]
    rfl
  | cons c l ih => rw [List.flatMap_cons, List.append_assoc, readUnits_escape, ih]; rfl

/-- No character is the half of a pair. -/
theorem not_half (c : Char) : isHigh c.toNat = false ∧ isLow c.toNat = false := by
  have hvalid := c.valid
  simp only [UInt32.isValidChar, Nat.isValidChar] at hvalid
  have hn : c.toNat = c.val.toNat := rfl
  simp only [isHigh, isLow, Bool.and_eq_false_iff, decide_eq_false_iff_not]
  omega

theorem ofUnit_toNat (c : Char) : ofUnit c.toNat = c := by
  rw [ofUnit, (not_half c).1, (not_half c).2]
  simp

theorem combine_chars : ∀ l : List Char, combine (l.map Char.toNat) = l
  | [] => rfl
  | [c] => by simp [combine, ofUnit_toNat]
  | c :: c' :: l => by
    have ih := combine_chars (c' :: l)
    simp only [List.map_cons] at ih ⊢
    rw [combine, if_neg (by simp [(not_half c).1]), ofUnit_toNat, ih]

theorem readString_print (s : String) : readString (s.toList.flatMap escape ++ '"' :: rest) = some (s, rest) := by
  simp [readString, readUnits_string, combine_chars]

/-! ### Numbers -/

theorem isNumberChar_of_isDigit (h : c.isDigit = true) : isNumberChar c = true := by
  simp [isNumberChar, h]

theorem all_of_allDigits (h : allDigits cs = true) : ∀ c ∈ cs, isNumberChar c = true := by
  intro c hc
  simp only [allDigits, Bool.and_eq_true, List.all_eq_true] at h
  exact isNumberChar_of_isDigit (h.2 c hc)

theorem all_of_isExponent (h : isExponent cs = true) : ∀ c ∈ cs, isNumberChar c = true := by
  cases cs with
  | nil => simp
  | cons e cs =>
    simp only [isExponent, Bool.and_eq_true, Bool.or_eq_true, beq_iff_eq] at h
    obtain ⟨he, hdigits⟩ := h
    intro c hc
    rcases List.mem_cons.mp hc with rfl | hc
    · rcases he with rfl | rfl <;> rfl
    · cases cs with
      | nil => cases hc
      | cons sign digits =>
        simp only at hdigits
        split at hdigits
        · next hsign =>
          rcases List.mem_cons.mp hc with rfl | hc
          · rcases hsign with rfl | rfl <;> rfl
          · exact all_of_allDigits hdigits c hc
        · exact all_of_allDigits hdigits c hc

theorem mem_takeWhile_or_dropWhile {p : Char → Bool} (hc : c ∈ cs) : c ∈ cs.takeWhile p ∨ c ∈ cs.dropWhile p := by
  rw [← List.takeWhile_append_dropWhile (p := p) (l := cs)] at hc
  exact List.mem_append.mp hc

theorem all_of_isFraction (h : isFraction cs = true) : ∀ c ∈ cs, isNumberChar c = true := by
  cases cs with
  | nil => simp
  | cons point cs =>
    simp only [isFraction] at h
    split at h
    · next hpoint =>
      simp only [Bool.and_eq_true] at h
      intro c hc
      rcases List.mem_cons.mp hc with rfl | hc
      · rw [beq_iff_eq.mp hpoint]; rfl
      · rcases mem_takeWhile_or_dropWhile hc with hc | hc
        · exact all_of_allDigits h.1 c hc
        · exact all_of_isExponent h.2 c hc
    · exact all_of_isExponent h

theorem all_of_isUnsigned (h : isUnsigned cs = true) : ∀ c ∈ cs, isNumberChar c = true := by
  intro c hc
  simp only [isUnsigned, Bool.and_eq_true] at h
  rcases mem_takeWhile_or_dropWhile hc with hc | hc
  · exact isNumberChar_of_isDigit (List.all_eq_true.mp List.all_takeWhile c hc)
  · exact all_of_isFraction h.2 c hc

theorem head_of_isUnsigned (h : isUnsigned cs = true) : ∃ c cs', cs = c :: cs' ∧ c.isDigit = true := by
  cases cs with
  | nil => simp [isUnsigned, allDigits] at h
  | cons c cs =>
    refine ⟨c, cs, rfl, ?_⟩
    by_contra hc
    simp [isUnsigned, allDigits, hc] at h

/-- A number begins with a digit or a sign, and has only the characters of numbers. -/
theorem Number.spec (n : Number) : (∃ c cs, n.literal = c :: cs ∧ (c.isDigit = true ∨ c = '-')) ∧
    ∀ c ∈ n.literal, isNumberChar c = true := by
  obtain ⟨literal, h⟩ := n
  unfold isNumber at h
  split at h
  · next cs =>
    refine ⟨⟨_, _, rfl, Or.inr rfl⟩, fun c hc => ?_⟩
    rcases List.mem_cons.mp hc with rfl | hc
    · rfl
    · exact all_of_isUnsigned h c hc
  · obtain ⟨c, cs, rfl, hc⟩ := head_of_isUnsigned h
    exact ⟨⟨c, cs, rfl, Or.inl hc⟩, all_of_isUnsigned h⟩

theorem isSpace_of_isDigit (h : c.isDigit = true ∨ c = '-') : isSpace c = false ∧ c ≠ '"' ∧ c ≠ '[' ∧ c ≠ '{' ∧ c ≠ 'n' ∧
    c ≠ 't' ∧ c ≠ 'f' := by
  refine ⟨?_, ?_, ?_, ?_, ?_, ?_, ?_⟩
  · rw [Bool.eq_false_iff]
    intro hspace
    simp only [isSpace, Bool.or_eq_true, beq_iff_eq] at hspace
    rcases hspace with ((rfl | rfl) | rfl) | rfl <;> revert h <;> decide
  all_goals
    rintro rfl
    revert h
    decide

/-- What comes after a number does not go on with it. -/
def Stops (rest : List Char) : Prop := ∀ c ∈ rest.head?, isNumberChar c = false

theorem takeWhile_number {l : List Char} (h : ∀ c ∈ l, isNumberChar c = true) (hrest : Stops rest) :
    (l ++ rest).takeWhile isNumberChar = l ∧ (l ++ rest).dropWhile isNumberChar = rest := by
  have hnil : rest.takeWhile isNumberChar = [] ∧ rest.dropWhile isNumberChar = rest := by
    cases rest with
    | nil => exact ⟨rfl, rfl⟩
    | cons c rest => simp [hrest c rfl]
  rw [List.takeWhile_append_of_pos h, List.dropWhile_append_of_pos h, hnil.1, hnil.2]
  simp

/-! ### Values -/

theorem stops_cons (h : isNumberChar c = false) : Stops (c :: cs) := by
  intro c' hc'
  cases hc'
  exact h

theorem stops_append (hws : ∀ c ∈ ws, isSpace c = true) (h : Stops cs) : Stops (ws ++ cs) := by
  cases ws with
  | nil => exact h
  | cons c ws =>
    refine stops_cons ?_
    have hc := hws c List.mem_cons_self
    simp only [isSpace, Bool.or_eq_true, beq_iff_eq] at hc
    rcases hc with ((rfl | rfl) | rfl) | rfl <;> rfl

section Print

variable {layout : Layout} {fuel depth : Nat}

theorem value_string (s : String) : value (fuel + 1) (printString s ++ rest) = some (.string s, rest) := by
  have hprint : printString s ++ rest = '"' :: (s.toList.flatMap escape ++ '"' :: rest) := by simp [printString]
  rw [hprint, value, skip_cons rfl]
  simp [readString_print]

theorem value_number (n : Number) (hrest : Stops rest) :
    value (fuel + 1) (n.literal ++ rest) = some (.number n, rest) := by
  obtain ⟨⟨c, cs, hcs, hc⟩, hall⟩ := n.spec
  obtain ⟨hspace, hquote, hbracket, hbrace, hn, ht, hf⟩ := isSpace_of_isDigit hc
  obtain ⟨htake, hdrop⟩ := takeWhile_number hall hrest
  rw [value, hcs, List.cons_append, skip_cons hspace]
  simp only [if_neg hquote, if_neg hbracket, if_neg hbrace, hn, ht, hf, false_and, if_false]
  rw [← List.cons_append, ← hcs, htake, hdrop, dif_pos n.valid]

theorem value_space (hws : ∀ c ∈ ws, isSpace c = true) : value fuel (ws ++ cs) = value fuel cs := by
  cases fuel with
  | zero => rfl
  | succ fuel => rw [value, value, skip_append hws]

theorem skip_skip : skip (skip cs) = skip cs := by
  induction cs with
  | nil => rfl
  | cons c cs ih =>
    by_cases hc : isSpace c = true
    · rw [skip, if_pos hc, ih]
    · rw [skip_cons (Bool.not_eq_true _ ▸ hc), skip_cons (Bool.not_eq_true _ ▸ hc)]

theorem value_skip : value fuel (skip cs) = value fuel cs := by
  cases fuel with
  | zero => rfl
  | succ fuel => rw [value, value, skip_skip]

theorem items_skip : items fuel (skip cs) = items fuel cs := by
  cases fuel with
  | zero => rfl
  | succ fuel => rw [items, items, value_skip]

theorem member_skip : member fuel (skip cs) = member fuel cs := by
  cases fuel with
  | zero => rfl
  | succ fuel => rw [member, member, skip_skip]

theorem members_skip : members fuel (skip cs) = members fuel cs := by
  cases fuel with
  | zero => rfl
  | succ fuel => rw [members, members, member_skip]

/-- A value begins with no space and closes nothing. -/
theorem print_head (layout : Layout) (depth : Nat) (j : Json) :
    ∃ c cs, print layout depth j = c :: cs ∧ isSpace c = false ∧ c ≠ ']' := by
  cases j with
  | null => exact ⟨_, _, rfl, rfl, by decide⟩
  | bool value => cases value <;> exact ⟨_, _, rfl, rfl, by decide⟩
  | number value =>
    obtain ⟨⟨c, cs, hcs, hc⟩, -⟩ := value.spec
    refine ⟨c, cs, by rw [print, hcs], (isSpace_of_isDigit hc).1, ?_⟩
    rintro rfl
    revert hc
    decide
  | string value => exact ⟨_, _, rfl, rfl, by decide⟩
  | array items => cases items <;> exact ⟨_, _, rfl, rfl, by decide⟩
  | object members => cases members <;> exact ⟨_, _, rfl, rfl, by decide⟩

theorem items_head (layout : Layout) (depth : Nat) (item : Json) (l : List Json) (rest : List Char) :
    ∃ c cs, skip (printItems layout depth (item :: l) ++ rest) = c :: cs ∧ c ≠ ']' := by
  obtain ⟨c, cs, hprint, hspace, hc⟩ := print_head layout depth item
  cases l with
  | nil =>
    refine ⟨c, cs ++ rest, ?_, hc⟩
    rw [printItems, List.append_assoc, skip_append (layout.before_space depth), hprint, List.cons_append,
      skip_cons hspace]
  | cons item' l =>
    refine ⟨c, cs ++ (',' :: printItems layout depth (item' :: l) ++ rest), ?_, hc⟩
    rw [printItems, List.append_assoc, List.append_assoc, skip_append (layout.before_space depth), hprint,
      List.cons_append, skip_cons hspace]

theorem members_head (layout : Layout) (depth : Nat) (name : String) (v : Json) (l : List (String × Json))
    (rest : List Char) :
    ∃ cs, skip (printMembers layout depth ((name, v) :: l) ++ rest) = '"' :: cs := by
  have hname : ∀ cs, skip (layout.before depth ++ (printString name ++ cs)) = '"' ::
      (name.toList.flatMap escape ++ '"' :: cs) := by
    intro cs
    rw [skip_append (layout.before_space depth), printString, List.cons_append, List.cons_append, skip_cons rfl]
    simp
  cases l with
  | nil =>
    rw [printMembers, List.append_assoc, List.append_assoc, List.append_assoc]
    exact ⟨_, hname _⟩
  | cons member l =>
    rw [printMembers, List.append_assoc, List.append_assoc, List.append_assoc, List.append_assoc]
    exact ⟨_, hname _⟩

/-- The name of a member is read, then its value. -/
theorem member_print {name : String} {v : Json} (hvalue : value fuel (print layout depth v ++ rest) = some (v, rest)) :
    member (fuel + 1)
      (layout.before depth ++ (printString name ++ ':' :: (layout.colon ++ (print layout depth v ++ rest)))) =
      some ((name, v), rest) := by
  have hname : printString name ++ ':' :: (layout.colon ++ (print layout depth v ++ rest)) =
      '"' :: (name.toList.flatMap escape ++ '"' :: ':' :: (layout.colon ++ (print layout depth v ++ rest))) := by
    simp [printString]
  rw [member, skip_append (layout.before_space depth), hname, skip_cons rfl]
  simp only [if_true, readString_print, Option.bind_some, skip_cons (show isSpace ':' = false from rfl),
    value_space layout.colon_space, hvalue, Option.map_some]

/-- What was printed is read with this much fuel, and what comes after it is left over. -/
structure Reads (layout : Layout) (fuel : Nat) : Prop where
  value : ∀ (j : Json) (rest : List Char) (depth : Nat), 3 * (print layout depth j).length ≤ fuel → Stops rest →
    value fuel (print layout depth j ++ rest) = some (j, rest)
  items : ∀ (item : Json) (l : List Json) (ws rest : List Char) (depth : Nat),
    3 * (printItems layout depth (item :: l)).length + 1 ≤ fuel → (∀ c ∈ ws, isSpace c = true) →
      items fuel (printItems layout depth (item :: l) ++ ws ++ ']' :: rest) = some (item :: l, rest)
  members : ∀ (name : String) (v : Json) (l : List (String × Json)) (ws rest : List Char) (depth : Nat),
    3 * (printMembers layout depth ((name, v) :: l)).length + 2 ≤ fuel → (∀ c ∈ ws, isSpace c = true) →
      members fuel (printMembers layout depth ((name, v) :: l) ++ ws ++ '}' :: rest) = some ((name, v) :: l, rest)

section Step

variable (ih : ∀ n < fuel, Reads layout n)
include ih

theorem value_print (j : Json) (rest : List Char) (depth : Nat) (hfuel : 3 * (print layout depth j).length ≤ fuel)
    (hrest : Stops rest) : value fuel (print layout depth j ++ rest) = some (j, rest) := by
  obtain ⟨c, cs, hhead, -, -⟩ := print_head layout depth j
  obtain ⟨fuel, rfl⟩ : ∃ n, fuel = n + 1 := by
    rw [hhead, List.length_cons] at hfuel
    exact ⟨fuel - 1, by omega⟩
  match j with
  | .null => simp [value, print, skip, isSpace]
  | .bool true => simp [value, print, skip, isSpace]
  | .bool false => simp [value, print, skip, isSpace]
  | .number n => exact value_number n hrest
  | .string s => exact value_string s
  | .array [] => simp [value, print, skip, isSpace]
  | .array (item :: l) =>
    have hlength : 3 * (printItems layout (depth + 1) (item :: l)).length + 1 ≤ fuel := by
      simp only [print, List.length_append, List.length_cons, List.length_nil] at hfuel
      omega
    have hitems :=
      (ih fuel (by omega)).items item l (layout.before depth) rest (depth + 1) hlength (layout.before_space depth)
    obtain ⟨c, cs, hskip, hc⟩ := items_head layout (depth + 1) item l (layout.before depth ++ ']' :: rest)
    rw [← items_skip, List.append_assoc, hskip] at hitems
    have htext : print layout depth (.array (item :: l)) ++ rest =
        '[' :: (printItems layout (depth + 1) (item :: l) ++ (layout.before depth ++ ']' :: rest)) := by
      simp [print]
    rw [htext, value, skip_cons rfl]
    simp [hskip, hc, hitems]
  | .object [] => simp [value, print, skip, isSpace]
  | .object ((name, v) :: l) =>
    have hlength : 3 * (printMembers layout (depth + 1) ((name, v) :: l)).length + 2 ≤ fuel := by
      simp only [print, List.length_append, List.length_cons, List.length_nil] at hfuel
      omega
    have hmembers :=
      (ih fuel (by omega)).members name v l (layout.before depth) rest (depth + 1) hlength (layout.before_space depth)
    obtain ⟨cs, hskip⟩ := members_head layout (depth + 1) name v l (layout.before depth ++ '}' :: rest)
    rw [← members_skip, List.append_assoc, hskip] at hmembers
    have htext : print layout depth (.object ((name, v) :: l)) ++ rest =
        '{' :: (printMembers layout (depth + 1) ((name, v) :: l) ++ (layout.before depth ++ '}' :: rest)) := by
      simp [print]
    rw [htext, value, skip_cons rfl]
    simp [hskip, hmembers]

theorem items_print (item : Json) (l : List Json) (ws rest : List Char) (depth : Nat)
    (hfuel : 3 * (printItems layout depth (item :: l)).length + 1 ≤ fuel) (hws : ∀ c ∈ ws, isSpace c = true) :
    items fuel (printItems layout depth (item :: l) ++ ws ++ ']' :: rest) = some (item :: l, rest) := by
  obtain ⟨fuel, rfl⟩ : ∃ n, fuel = n + 1 := ⟨fuel - 1, by omega⟩
  match l with
  | [] =>
    have hlength : 3 * (print layout depth item).length ≤ fuel := by
      simp only [printItems, List.length_append] at hfuel
      omega
    have hvalue := (ih fuel (by omega)).value item (ws ++ ']' :: rest) depth hlength (stops_append hws (stops_cons rfl))
    rw [printItems, List.append_assoc, List.append_assoc, items, value_space (layout.before_space depth), hvalue]
    simp [skip_append hws, skip_cons (show isSpace ']' = false from rfl)]
  | item' :: l =>
    have hlength :
        3 * (print layout depth item).length ≤ fuel ∧ 3 * (printItems layout depth (item' :: l)).length + 1 ≤ fuel := by
      simp only [printItems, List.length_append, List.length_cons] at hfuel ⊢
      omega
    have hvalue :=
      (ih fuel (by omega)).value item (',' :: (printItems layout depth (item' :: l) ++ ws ++ ']' :: rest)) depth
      hlength.1 (stops_cons rfl)
    have hitems := (ih fuel (by omega)).items item' l ws rest depth hlength.2 hws
    have htext : printItems layout depth (item :: item' :: l) ++ ws ++ ']' :: rest = layout.before depth ++
        (print layout depth item ++ ',' :: (printItems layout depth (item' :: l) ++ ws ++ ']' :: rest)) := by
      simp [printItems]
    rw [htext, items, value_space (layout.before_space depth), hvalue]
    simp only [Option.bind_some, skip_cons (show isSpace ',' = false from rfl)]
    rw [if_neg (by decide), if_pos trivial, hitems]
    rfl

theorem members_print (name : String) (v : Json) (l : List (String × Json)) (ws rest : List Char) (depth : Nat)
    (hfuel : 3 * (printMembers layout depth ((name, v) :: l)).length + 2 ≤ fuel) (hws : ∀ c ∈ ws, isSpace c = true) :
    members fuel (printMembers layout depth ((name, v) :: l) ++ ws ++ '}' :: rest) = some ((name, v) :: l, rest) := by
  obtain ⟨fuel, rfl⟩ : ∃ n, fuel = n + 2 := ⟨fuel - 2, by omega⟩
  match l with
  | [] =>
    have hlength : 3 * (print layout depth v).length ≤ fuel := by
      simp only [printMembers, List.length_append, List.length_cons] at hfuel
      omega
    have hvalue := (ih fuel (by omega)).value v (ws ++ '}' :: rest) depth hlength (stops_append hws (stops_cons rfl))
    have htext : printMembers layout depth [(name, v)] ++ ws ++ '}' :: rest = layout.before depth ++
        (printString name ++ ':' :: (layout.colon ++ (print layout depth v ++ (ws ++ '}' :: rest)))) := by
      simp [printMembers]
    rw [htext, members, member_print hvalue]
    simp [skip_append hws, skip_cons (show isSpace '}' = false from rfl)]
  | (name', v') :: l =>
    have hlength : 3 * (print layout depth v).length ≤ fuel ∧
        3 * (printMembers layout depth ((name', v') :: l)).length + 2 ≤ fuel + 1 := by
      simp only [printMembers, List.length_append, List.length_cons] at hfuel ⊢
      omega
    have hvalue :=
      (ih fuel (by omega)).value v (',' :: (printMembers layout depth ((name', v') :: l) ++ ws ++ '}' :: rest))
      depth hlength.1 (stops_cons rfl)
    have hmembers := (ih (fuel + 1) (by omega)).members name' v' l ws rest depth hlength.2 hws
    have htext : printMembers layout depth ((name, v) :: (name', v') :: l) ++ ws ++ '}' :: rest = layout.before depth ++
        (printString name ++ ':' :: (layout.colon ++ (print layout depth v ++
          ',' :: (printMembers layout depth ((name', v') :: l) ++ ws ++ '}' :: rest)))) := by
      simp [printMembers]
    rw [htext, members, member_print hvalue]
    simp only [Option.bind_some, skip_cons (show isSpace ',' = false from rfl)]
    rw [if_neg (by decide), if_pos trivial, hmembers]
    rfl

end Step

theorem reads (layout : Layout) : ∀ fuel, Reads layout fuel := by
  intro fuel
  induction fuel using Nat.strongRecOn with
  | ind fuel ih => exact ⟨value_print ih, items_print ih, members_print ih⟩

/-- **What is printed is read back**, with white space around it. -/
theorem parse_print (j : Json) (hws : ∀ c ∈ ws, isSpace c = true) : parse (print layout depth j ++ ws) = some j := by
  have hnil : Stops ([] : List Char) := fun c hc => nomatch hc
  have hstops : Stops ws := by simpa using stops_append hws hnil
  have hvalue :=
    (reads layout (3 * (print layout depth j ++ ws).length + 1)).value j ws depth
      (by rw [List.length_append]; omega) hstops
  have hskip : skip (ws ++ []) = skip [] := skip_append hws
  rw [List.append_nil] at hskip
  rw [parse, hvalue]
  simp [hskip, skip]

end Print

end Json
