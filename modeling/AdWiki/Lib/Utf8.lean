import Mathlib

/-!
# UTF-8

Texts as bytes. The decoder never fails: what is no UTF-8 becomes the replacement character, one for each part that
could have been the beginning of a character. `decode_encode` says that it takes back what was encoded.
-/

namespace Utf8

abbrev Byte := UInt8

/-! ## The functions -/

/-- The bytes of a character, as numbers. -/
def units (n : Nat) : List Nat :=
  if n < 0x80 then [n]
  else if n < 0x800 then [0xC0 + n / 0x40, 0x80 + n % 0x40]
  else if n < 0x10000 then [0xE0 + n / 0x1000, 0x80 + n / 0x40 % 0x40, 0x80 + n % 0x40]
  else [0xF0 + n / 0x40000, 0x80 + n / 0x1000 % 0x40, 0x80 + n / 0x40 % 0x40, 0x80 + n % 0x40]

def encode (text : List Char) : List Byte := text.flatMap fun c => (units c.toNat).map Nat.toUInt8

def replacement : Char := Char.ofNat 0xFFFD

def isTail (n : Nat) : Bool := 0x80 ≤ n && n < 0xC0

/-- Whether a byte may follow the first byte of a character: no overlong form, no surrogate, nothing past the last
code point. -/
def isSecond (first n : Nat) : Bool :=
  isTail n && (first != 0xE0 || 0xA0 ≤ n) && (first != 0xED || n < 0xA0) && (first != 0xF0 || 0x90 ≤ n) &&
    (first != 0xF4 || n < 0x90)

def decodeUnits : List Nat → List Char
  | [] => []
  | a :: rest =>
    if a < 0x80 then Char.ofNat a :: decodeUnits rest
    else if a < 0xC2 ∨ 0xF4 < a then replacement :: decodeUnits rest
    else
      match rest with
      | [] => [replacement]
      | b :: rest =>
        if isSecond a b = false then replacement :: decodeUnits (b :: rest)
        else if a < 0xE0 then Char.ofNat ((a - 0xC0) * 0x40 + (b - 0x80)) :: decodeUnits rest
        else
          match rest with
          | [] => [replacement]
          | c :: rest =>
            if isTail c = false then replacement :: decodeUnits (c :: rest)
            else if a < 0xF0 then Char.ofNat (((a - 0xE0) * 0x40 + (b - 0x80)) * 0x40 + (c - 0x80)) :: decodeUnits rest
            else
              match rest with
              | [] => [replacement]
              | d :: rest =>
                if isTail d = false then replacement :: decodeUnits (d :: rest)
                else
                  Char.ofNat ((((a - 0xF0) * 0x40 + (b - 0x80)) * 0x40 + (c - 0x80)) * 0x40 + (d - 0x80)) ::
                    decodeUnits rest

def decode (bytes : List Byte) : List Char := decodeUnits (bytes.map UInt8.toNat)

/-! ## Decoding what was encoded -/

variable {rest : List Nat}

/-- A code point is below the surrogates, or above them and small enough. -/
theorem toNat_cases (c : Char) : c.toNat < 0xD800 ∨ 0xDFFF < c.toNat ∧ c.toNat < 0x110000 := by
  have hvalid := c.valid
  simp only [UInt32.isValidChar, Nat.isValidChar] at hvalid
  exact hvalid

theorem lt_of_mem_units {n m : Nat} (hn : n < 0x110000) (h : m ∈ units n) : m < 256 := by
  unfold units at h
  split at h
  · simp only [List.mem_singleton] at h
    omega
  · split at h
    · simp only [List.mem_cons, List.not_mem_nil, or_false] at h
      omega
    · split at h
      · simp only [List.mem_cons, List.not_mem_nil, or_false] at h
        omega
      · simp only [List.mem_cons, List.not_mem_nil, or_false] at h
        omega

theorem decodeUnits_one {a : Nat} (ha : a < 0x80) : decodeUnits (a :: rest) = Char.ofNat a :: decodeUnits rest := by
  rw [decodeUnits.eq_def]
  simp [ha]

theorem decodeUnits_two {a b : Nat} (ha : 0xC2 ≤ a ∧ a < 0xE0) (hb : isSecond a b = true) :
    decodeUnits (a :: b :: rest) = Char.ofNat ((a - 0xC0) * 0x40 + (b - 0x80)) :: decodeUnits rest := by
  rw [decodeUnits.eq_def]
  simp only [if_neg (show ¬a < 0x80 by omega), if_neg (show ¬(a < 0xC2 ∨ 0xF4 < a) by omega), hb, if_pos ha.2]
  simp

theorem decodeUnits_three {a b c : Nat} (ha : 0xE0 ≤ a ∧ a < 0xF0) (hb : isSecond a b = true) (hc : isTail c = true) :
    decodeUnits (a :: b :: c :: rest) =
      Char.ofNat (((a - 0xE0) * 0x40 + (b - 0x80)) * 0x40 + (c - 0x80)) :: decodeUnits rest := by
  rw [decodeUnits.eq_def]
  simp only [if_neg (show ¬a < 0x80 by omega), if_neg (show ¬(a < 0xC2 ∨ 0xF4 < a) by omega), hb,
    if_neg (show ¬a < 0xE0 by omega), hc, if_pos ha.2]
  simp

theorem decodeUnits_four {a b c d : Nat} (ha : 0xF0 ≤ a ∧ a ≤ 0xF4) (hb : isSecond a b = true) (hc : isTail c = true)
    (hd : isTail d = true) : decodeUnits (a :: b :: c :: d :: rest) =
      Char.ofNat ((((a - 0xF0) * 0x40 + (b - 0x80)) * 0x40 + (c - 0x80)) * 0x40 + (d - 0x80)) :: decodeUnits rest := by
  rw [decodeUnits.eq_def]
  simp only [if_neg (show ¬a < 0x80 by omega), if_neg (show ¬(a < 0xC2 ∨ 0xF4 < a) by omega), hb,
    if_neg (show ¬a < 0xE0 by omega), hc, if_neg (show ¬a < 0xF0 by omega), hd]
  simp

theorem isTail_rest (n : Nat) : isTail (0x80 + n % 0x40) = true := by
  simp only [isTail, Bool.and_eq_true, decide_eq_true_eq]
  omega

/-- The bytes of a character are read as this character. -/
theorem decodeUnits_units (c : Char) : decodeUnits (units c.toNat ++ rest) = c :: decodeUnits rest := by
  have hcases := toNat_cases c
  have hc : Char.ofNat c.toNat = c := Char.ofNat_toNat c
  generalize c.toNat = n at hcases hc
  unfold units
  split
  · next h => rw [List.singleton_append, decodeUnits_one h, hc]
  split
  · next h1 h2 =>
    have hsecond : isSecond (0xC0 + n / 0x40) (0x80 + n % 0x40) = true := by
      simp only [isSecond, isTail, Bool.and_eq_true, Bool.or_eq_true, decide_eq_true_eq, bne_iff_ne]
      omega
    have hvalue : (0xC0 + n / 0x40 - 0xC0) * 0x40 + (0x80 + n % 0x40 - 0x80) = n := by omega
    rw [List.cons_append, List.singleton_append, decodeUnits_two (by omega) hsecond, hvalue, hc]
  split
  · next h1 h2 h3 =>
    have hsecond : isSecond (0xE0 + n / 0x1000) (0x80 + n / 0x40 % 0x40) = true := by
      simp only [isSecond, isTail, Bool.and_eq_true, Bool.or_eq_true, decide_eq_true_eq, bne_iff_ne]
      omega
    have hvalue :
        ((0xE0 + n / 0x1000 - 0xE0) * 0x40 + (0x80 + n / 0x40 % 0x40 - 0x80)) * 0x40 + (0x80 + n % 0x40 - 0x80) = n := by
      omega
    rw [List.cons_append, List.cons_append, List.singleton_append,
      decodeUnits_three (by omega) hsecond (isTail_rest n), hvalue, hc]
  · next h1 h2 h3 =>
    have hsecond : isSecond (0xF0 + n / 0x40000) (0x80 + n / 0x1000 % 0x40) = true := by
      simp only [isSecond, isTail, Bool.and_eq_true, Bool.or_eq_true, decide_eq_true_eq, bne_iff_ne]
      omega
    have hvalue : (((0xF0 + n / 0x40000 - 0xF0) * 0x40 + (0x80 + n / 0x1000 % 0x40 - 0x80)) * 0x40 +
        (0x80 + n / 0x40 % 0x40 - 0x80)) * 0x40 + (0x80 + n % 0x40 - 0x80) = n := by
      omega
    rw [List.cons_append, List.cons_append, List.cons_append, List.singleton_append,
      decodeUnits_four (by omega) hsecond (isTail_rest (n / 0x40)) (isTail_rest n), hvalue, hc]

/-- Every unit is a byte. -/
theorem map_encode (text : List Char) : (encode text).map UInt8.toNat = text.flatMap fun c => units c.toNat := by
  induction text with
  | nil => rfl
  | cons c text ih =>
    have hn : c.toNat < 0x110000 := by
      have := toNat_cases c
      omega
    have hc : (units c.toNat).map (UInt8.toNat ∘ Nat.toUInt8) = units c.toNat := by
      refine (List.map_congr_left fun m hm => ?_).trans (List.map_id _)
      simpa using Nat.mod_eq_of_lt (lt_of_mem_units hn hm)
    rw [encode, List.flatMap_cons, List.map_append, List.map_map, hc, List.flatMap_cons, ← encode, ih]

/-- **What was encoded is decoded.** -/
theorem decode_encode (text : List Char) : decode (encode text) = text := by
  rw [decode, map_encode]
  induction text with
  | nil => rfl
  | cons c text ih => rw [List.flatMap_cons, decodeUnits_units, ih]

/-! ## Cut texts -/

/-- The number of bytes of a text. -/
def size (text : List Char) : Nat := (text.map fun c => (units c.toNat).length).sum

/-- A text of which the first `n` bytes are read: the characters that fit, and the replacement character for one that is
cut. -/
def cut : Nat → List Char → List Char
  | _, [] => []
  | n, c :: text =>
    if (units c.toNat).length ≤ n then c :: cut (n - (units c.toNat).length) text else if n = 0 then [] else [replacement]

theorem length_units_pos (n : Nat) : 0 < (units n).length := by
  unfold units
  split
  · exact Nat.one_pos
  · split
    · exact Nat.two_pos
    · split
      · exact Nat.succ_pos _
      · exact Nat.succ_pos _

/-- The beginning of a character is read as one replacement character. -/
theorem decodeUnits_take_units (c : Char) {n : Nat} (hpos : n ≠ 0) (hlt : n < (units c.toNat).length) :
    decodeUnits ((units c.toNat).take n) = [replacement] := by
  have hcases := toNat_cases c
  generalize c.toNat = m at hcases hlt
  unfold units at hlt ⊢
  split at hlt
  · simp only [List.length_singleton] at hlt
    omega
  split at hlt
  · next h1 h2 =>
    simp only [if_neg h1, if_pos h2]
    simp only [List.length_cons, List.length_nil] at hlt
    obtain rfl : n = 1 := by omega
    rw [List.take_succ_cons, List.take_zero, decodeUnits.eq_def]
    simp only [if_neg (show ¬0xC0 + m / 0x40 < 0x80 by omega),
      if_neg (show ¬(0xC0 + m / 0x40 < 0xC2 ∨ 0xF4 < 0xC0 + m / 0x40) by omega)]
  split at hlt
  · next h1 h2 h3 =>
    have hsecond : isSecond (0xE0 + m / 0x1000) (0x80 + m / 0x40 % 0x40) = true := by
      simp only [isSecond, isTail, Bool.and_eq_true, Bool.or_eq_true, decide_eq_true_eq, bne_iff_ne]
      omega
    have hfirst : ¬(0xE0 + m / 0x1000 < 0xC2 ∨ 0xF4 < 0xE0 + m / 0x1000) := by omega
    have hlow : ¬0xE0 + m / 0x1000 < 0x80 := by omega
    simp only [if_neg h1, if_neg h2, if_pos h3]
    simp only [List.length_cons, List.length_nil] at hlt
    obtain rfl | rfl : n = 1 ∨ n = 2 := by omega
    · rw [List.take_succ_cons, List.take_zero, decodeUnits.eq_def]
      simp only [if_neg hlow, if_neg hfirst]
    · rw [List.take_succ_cons, List.take_succ_cons, List.take_zero, decodeUnits.eq_def]
      simp only [if_neg hlow, if_neg hfirst, hsecond, if_neg (show ¬0xE0 + m / 0x1000 < 0xE0 by omega)]
      simp
  · next h1 h2 h3 =>
    have hsecond : isSecond (0xF0 + m / 0x40000) (0x80 + m / 0x1000 % 0x40) = true := by
      simp only [isSecond, isTail, Bool.and_eq_true, Bool.or_eq_true, decide_eq_true_eq, bne_iff_ne]
      omega
    have hfirst : ¬(0xF0 + m / 0x40000 < 0xC2 ∨ 0xF4 < 0xF0 + m / 0x40000) := by omega
    have hlow : ¬0xF0 + m / 0x40000 < 0x80 := by omega
    simp only [if_neg h1, if_neg h2, if_neg h3]
    simp only [List.length_cons, List.length_nil] at hlt
    obtain rfl | rfl | rfl : n = 1 ∨ n = 2 ∨ n = 3 := by omega
    · rw [List.take_succ_cons, List.take_zero, decodeUnits.eq_def]
      simp only [if_neg hlow, if_neg hfirst]
    · rw [List.take_succ_cons, List.take_succ_cons, List.take_zero, decodeUnits.eq_def]
      simp only [if_neg hlow, if_neg hfirst, hsecond, if_neg (show ¬0xF0 + m / 0x40000 < 0xE0 by omega)]
      simp
    · rw [List.take_succ_cons, List.take_succ_cons, List.take_succ_cons, List.take_zero, decodeUnits.eq_def]
      simp only [if_neg hlow, if_neg hfirst, hsecond, if_neg (show ¬0xF0 + m / 0x40000 < 0xE0 by omega),
        isTail_rest, if_neg (show ¬0xF0 + m / 0x40000 < 0xF0 by omega)]
      simp

/-- **What was cut is read up to the cut.** -/
theorem decode_take (n : Nat) (text : List Char) : decode ((encode text).take n) = cut n text := by
  rw [decode, List.map_take, map_encode]
  induction text generalizing n with
  | nil => simp [cut, decodeUnits]
  | cons c text ih =>
    rw [List.flatMap_cons, List.take_append, cut]
    by_cases hfits : (units c.toNat).length ≤ n
    · rw [if_pos hfits, List.take_of_length_le hfits, decodeUnits_units, ih]
    · have hrest : n - (units c.toNat).length = 0 := by omega
      rw [if_neg hfits, hrest, List.take_zero, List.append_nil]
      by_cases hzero : n = 0
      · rw [if_pos hzero, hzero, List.take_zero, decodeUnits]
      · rw [if_neg hzero, decodeUnits_take_units c hzero (by omega)]

@[simp] theorem cut_zero (text : List Char) : cut 0 text = [] := by
  cases text with
  | nil => rfl
  | cons c text =>
    have hpos := length_units_pos c.toNat
    rw [cut, if_neg (by omega), if_pos rfl]

theorem size_append (a b : List Char) : size (a ++ b) = size a + size b := by
  simp [size]

/-- The text before the cut is whole. -/
theorem cut_append {n : Nat} {a b : List Char} (h : size a ≤ n) : cut n (a ++ b) = a ++ cut (n - size a) b := by
  induction a generalizing n with
  | nil => rfl
  | cons c a ih =>
    have hsize : size (c :: a) = (units c.toNat).length + size a := rfl
    rw [hsize] at h
    rw [List.cons_append, cut, if_pos (by omega), ih (by omega), hsize, Nat.sub_sub, List.cons_append]

theorem cut_of_size_le {n : Nat} {a : List Char} (h : size a ≤ n) : cut n a = a := by
  have happend := cut_append (b := []) h
  rw [List.append_nil] at happend
  rw [happend, cut, List.append_nil]

/-- Nothing after the cut is read. -/
theorem cut_append_of_le {n : Nat} {a b : List Char} (h : n ≤ size a) : cut n (a ++ b) = cut n a := by
  induction a generalizing n with
  | nil =>
    obtain rfl : n = 0 := Nat.le_zero.mp h
    rw [cut_zero, cut_zero]
  | cons c a ih =>
    have hsize : size (c :: a) = (units c.toNat).length + size a := rfl
    rw [hsize] at h
    rw [List.cons_append, cut, cut]
    by_cases hfits : (units c.toNat).length ≤ n
    · rw [if_pos hfits, if_pos hfits, ih (by omega)]
    · rw [if_neg hfits, if_neg hfits]

theorem mem_cut {n : Nat} {text : List Char} {c : Char} (h : c ∈ cut n text) : c ∈ text ∨ c = replacement := by
  induction text generalizing n with
  | nil => cases h
  | cons d text ih =>
    unfold cut at h
    split at h
    · rcases List.mem_cons.mp h with rfl | h
      · exact Or.inl List.mem_cons_self
      · exact (ih h).imp_left (List.mem_cons_of_mem _)
    · split at h
      · cases h
      · exact Or.inr (List.mem_singleton.mp h)

end Utf8
