import Mathlib

/-!
# base64url

Bytes as letters, digits, `-` and `_`, without padding. The decoder takes the signs of both alphabets, skips what is in
neither, and drops a last letter that is no whole byte. `decode_encode` says that it takes back what was encoded.
-/

namespace Base64Url

abbrev Byte := UInt8

/-! ## The functions -/

/-- The letter of six bits. -/
def letter (n : Nat) : Char :=
  if n < 26 then Char.ofNat (65 + n)
  else if n < 52 then Char.ofNat (71 + n)
  else if n < 62 then Char.ofNat (n - 4)
  else if n = 62 then '-'
  else '_'

/-- The six bits of a letter, in either alphabet. -/
def sextet (c : Char) : Option Nat :=
  let n := c.toNat
  if 65 ≤ n ∧ n ≤ 90 then some (n - 65)
  else if 97 ≤ n ∧ n ≤ 122 then some (n - 71)
  else if 48 ≤ n ∧ n ≤ 57 then some (n + 4)
  else if c = '-' ∨ c = '+' then some 62
  else if c = '_' ∨ c = '/' then some 63
  else none

/-- Bytes in groups of six bits. -/
def sextets : List Nat → List Nat
  | a :: b :: c :: rest => a / 4 :: (a % 4 * 16 + b / 16) :: (b % 16 * 4 + c / 64) :: c % 64 :: sextets rest
  | [a, b] => [a / 4, a % 4 * 16 + b / 16, b % 16 * 4]
  | [a] => [a / 4, a % 4 * 16]
  | [] => []

/-- Groups of six bits as bytes. -/
def octets : List Nat → List Nat
  | a :: b :: c :: d :: rest => (a * 4 + b / 16) :: (b % 16 * 16 + c / 4) :: (c % 4 * 64 + d) :: octets rest
  | [a, b, c] => [a * 4 + b / 16, b % 16 * 16 + c / 4]
  | [a, b] => [a * 4 + b / 16]
  | _ => []

def encode (bytes : List Byte) : List Char := (sextets (bytes.map UInt8.toNat)).map letter

def decode (text : List Char) : List Byte := (octets (text.filterMap sextet)).map Nat.toUInt8

/-! ## Decoding what was encoded -/

theorem sextet_letter : ∀ n < 64, sextet (letter n) = some n := by decide

theorem octets_sextets : ∀ bytes : List Nat, (∀ n ∈ bytes, n < 256) → octets (sextets bytes) = bytes
  | a :: b :: c :: rest, h => by
    have ha := h a (by simp)
    have hb := h b (by simp)
    have hc := h c (by simp)
    have ih := octets_sextets rest fun n hn => h n (by simp [hn])
    have h1 : a / 4 * 4 + (a % 4 * 16 + b / 16) / 16 = a := by omega
    have h2 : (a % 4 * 16 + b / 16) % 16 * 16 + (b % 16 * 4 + c / 64) / 4 = b := by omega
    have h3 : (b % 16 * 4 + c / 64) % 4 * 64 + c % 64 = c := by omega
    rw [sextets, octets, h1, h2, h3, ih]
  | [a, b], h => by
    have ha := h a (by simp)
    have hb := h b (by simp)
    have h1 : a / 4 * 4 + (a % 4 * 16 + b / 16) / 16 = a := by omega
    have h2 : (a % 4 * 16 + b / 16) % 16 * 16 + b % 16 * 4 / 4 = b := by omega
    rw [sextets, octets, h1, h2]
  | [a], h => by
    have ha := h a (by simp)
    have h1 : a / 4 * 4 + a % 4 * 16 / 16 = a := by omega
    rw [sextets, octets, h1]
  | [], _ => rfl

theorem sextets_lt : ∀ bytes : List Nat, (∀ n ∈ bytes, n < 256) → ∀ n ∈ sextets bytes, n < 64
  | a :: b :: c :: rest, h => by
    have ha := h a (by simp)
    have hb := h b (by simp)
    have hc := h c (by simp)
    have ih := sextets_lt rest fun n hn => h n (by simp [hn])
    intro n hn
    simp only [sextets, List.mem_cons] at hn
    rcases hn with rfl | rfl | rfl | rfl | hn
    · omega
    · omega
    · omega
    · omega
    · exact ih n hn
  | [a, b], h => by
    have ha := h a (by simp)
    have hb := h b (by simp)
    intro n hn
    simp only [sextets, List.mem_cons, List.not_mem_nil, or_false] at hn
    omega
  | [a], h => by
    have ha := h a (by simp)
    intro n hn
    simp only [sextets, List.mem_cons, List.not_mem_nil, or_false] at hn
    omega
  | [], _ => by simp [sextets]

/-- **What was encoded is decoded.** -/
theorem decode_encode (bytes : List Byte) : decode (encode bytes) = bytes := by
  have hbytes : ∀ n ∈ bytes.map UInt8.toNat, n < 256 := by
    intro n hn
    obtain ⟨b, -, rfl⟩ := List.mem_map.mp hn
    exact UInt8.toNat_lt b
  have hletters : ((sextets (bytes.map UInt8.toNat)).map letter).filterMap sextet = sextets (bytes.map UInt8.toNat) := by
    rw [List.filterMap_map]
    refine (List.filterMap_congr fun n hn => sextet_letter n (sextets_lt _ hbytes n hn)).trans ?_
    simp
  rw [decode, encode, hletters, octets_sextets _ hbytes, List.map_map]
  simp [Function.comp_def]

end Base64Url
