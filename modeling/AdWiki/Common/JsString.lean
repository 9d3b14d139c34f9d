import Mathlib

/-!
# Strings as the source's language has them

`trim` and the length of a string follow the language of the source: white space is its `WhiteSpace` and
`LineTerminator` code points, and lengths count UTF-16 code units.
-/

namespace AdWiki.Js

/-- The code points that `trim` removes and `\s` matches. -/
def isSpace (c : Char) : Bool :=
  let n := c.toNat
  (9 ≤ n && n ≤ 13) || n == 0x20 || n == 0xA0 || n == 0x1680 || (0x2000 ≤ n && n ≤ 0x200A) || n == 0x2028 ||
    n == 0x2029 || n == 0x202F || n == 0x205F || n == 0x3000 || n == 0xFEFF

/-- `/[\u0300-\u036f]/`, the marks that a decomposition splits off. -/
def isCombining (c : Char) : Bool := 0x300 ≤ c.toNat && c.toNat ≤ 0x36f

/-- Only the letters from A to Z have another one in lower case. -/
theorem toLower_eq_or (c : Char) : c.toLower = c ∨ ∃ n < 26, c = Char.ofNat ('A'.toNat + n) := by
  by_cases hupper : 'A'.toNat ≤ c.toNat ∧ c.toNat ≤ 'Z'.toNat
  · have hlt : c.toNat - 'A'.toNat < 26 := by
      have hz : 'Z'.toNat = 'A'.toNat + 25 := rfl
      omega
    exact .inr ⟨c.toNat - 'A'.toNat, hlt, by rw [Nat.add_sub_cancel' hupper.1, Char.ofNat_toNat]⟩
  · left
    unfold Char.toLower
    exact dif_neg hupper

/-- `value.trim()`. -/
def trim (s : String) : String :=
  String.ofList (((s.toList.dropWhile isSpace).reverse.dropWhile isSpace).reverse)

/-- `value.length`, in UTF-16 code units. -/
def length (s : String) : Nat := (s.toList.map fun c => if c.toNat < 0x10000 then 1 else 2).sum

/-- The maximal runs of non-space characters, `acc` being the run that is open. -/
def wordsAux : List Char → List Char → List (List Char)
  | acc, [] => if acc.isEmpty then [] else [acc.reverse]
  | acc, c :: cs =>
    if isSpace c then
      if acc.isEmpty then wordsAux [] cs else acc.reverse :: wordsAux [] cs
    else wordsAux (c :: acc) cs

/-- `value.split(/\s+/).filter(Boolean)`. -/
def words (s : String) : List String := (wordsAux [] s.toList).map String.ofList

/-- `value.split(separator)`, for a separator of one character. -/
def split (separator : Char) (s : String) : List String := (s.toList.splitOn separator).map String.ofList

/-- `value.slice(0, n)` on code points. The half of a surrogate pair becomes a replacement character, as in UTF-8. -/
def sliceAux : Nat → List Char → List Char
  | 0, _ => []
  | _ + 1, [] => []
  | n + 1, c :: cs =>
    if c.toNat < 0x10000 then c :: sliceAux n cs
    else if n = 0 then [Char.ofNat 0xFFFD]
    else c :: sliceAux (n - 1) cs

/-- `value.slice(0, n)`, in UTF-16 code units. -/
def slice (n : Nat) (s : String) : String := String.ofList (sliceAux n s.toList)

/-- The replacement of every occurrence, the first argument being what is left of the one that has been found. -/
def replaceAux (pattern replacement : List Char) : Nat → List Char → List Char
  | _, [] => []
  | skip + 1, _ :: cs => replaceAux pattern replacement skip cs
  | 0, c :: cs =>
    if ((c :: cs).take pattern.length).map Char.toLower = pattern then
      replacement ++ replaceAux pattern replacement (pattern.length - 1) cs
    else c :: replaceAux pattern replacement 0 cs

/-- `value.replace(/pattern/gi, replacement)` for a pattern of lower-case letters and signs. -/
def replaceAll (pattern replacement : String) (s : String) : String :=
  String.ofList (replaceAux pattern.toList replacement.toList 0 s.toList)

/-- `left || right` for strings. -/
def orElse (left right : String) : String := if left = "" then right else left

/-- A character between the quotes of a JSON string. -/
def quoteChar (c : Char) : String :=
  match c.toNat with
  | 0x08 => "\\b"
  | 0x09 => "\\t"
  | 0x0A => "\\n"
  | 0x0C => "\\f"
  | 0x0D => "\\r"
  | 0x22 => "\\\""
  | 0x5C => "\\\\"
  | n => if n < 0x20 then "\\u00" ++ String.ofList [Nat.digitChar (n / 16), Nat.digitChar (n % 16)] else c.toString

/-- `JSON.stringify(value)` for a string. -/
def quote (s : String) : String := "\"" ++ String.join (s.toList.map quoteChar) ++ "\""

/-- The sequence a `Set` built from a list iterates over: first occurrences, in order. -/
def distinct {α : Type*} [DecidableEq α] : List α → List α
  | [] => []
  | a :: l => a :: (distinct l).filter (· ≠ a)

@[simp] theorem mem_distinct {α : Type*} [DecidableEq α] {a : α} {l : List α} : a ∈ distinct l ↔ a ∈ l := by
  induction l with
  | nil => simp [distinct]
  | cons b l ih =>
    by_cases h : a = b
    · simp [distinct, h]
    · simp [distinct, h, ih]

theorem nodup_distinct {α : Type*} [DecidableEq α] (l : List α) : (distinct l).Nodup := by
  induction l with
  | nil => simp [distinct]
  | cons b l ih =>
    refine List.nodup_cons.mpr ⟨by simp, ih.filter _⟩

end AdWiki.Js
