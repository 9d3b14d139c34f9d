import Mathlib

/-!
# Internet addresses and their texts

An IPv6 address is eight groups of 16 bits. Its text gives them as hexadecimal numbers between colons; one run of zero
groups may be left out (`::`), the last two groups may be written as an IPv4 address, and the name of a zone may follow.
One address has many texts, so what a text means is what it reads as (`read`).

* `readIPv6_cases`: the first group of an address is the number in front of the first colon of its text, and zero
  where the text begins with the colon.
* `IPv6.first_high`, `IPv6.first_zero`: how the text of an address begins whose first group is large, or zero.
-/

namespace IpAddress

structure IPv4 where
  a : Nat
  b : Nat
  c : Nat
  d : Nat
  deriving DecidableEq, Repr

/-- Eight groups. -/
structure IPv6 where
  groups : List Nat
  length : groups.length = 8
  deriving DecidableEq, Repr

inductive Address
  | v4 (a : IPv4)
  | v6 (h : IPv6)
  deriving DecidableEq, Repr

def IPv6.first (h : IPv6) : Nat := h.groups.headD 0

/-- The IPv4 address `a.b.c.d` of an address `::ffff:a.b.c.d`. -/
def IPv6.mapped (h : IPv6) : Option IPv4 :=
  match h.groups with
  | [0, 0, 0, 0, 0, 0xffff, x, y] => some ⟨x / 256, x % 256, y / 256, y % 256⟩
  | _ => none

def IPv6.unspecified : IPv6 := ⟨[0, 0, 0, 0, 0, 0, 0, 0], rfl⟩

def IPv6.loopback : IPv6 := ⟨[0, 0, 0, 0, 0, 0, 0, 1], rfl⟩

/-! ## Reading -/

def digit? (c : Char) : Option Nat := (List.range 10).find? fun d => Nat.digitChar d == c

/-- Digits of both cases. -/
def hexDigit? (c : Char) : Option Nat := (List.range 16).find? fun d => Nat.digitChar d == c.toLower

def ofDigits (base : Nat) (ds : List Nat) : Nat := ds.foldl (fun n d => base * n + d) 0

/-- A number up to 255 without leading zeros. -/
def octet? (s : List Char) : Option Nat := do
  let ds ← s.mapM digit?
  if s = [] ∨ (ds.head? = some 0 ∧ ds.length ≠ 1) ∨ 255 < ofDigits 10 ds then none else some (ofDigits 10 ds)

/-- One to four hexadecimal digits. -/
def group? (s : List Char) : Option Nat := do
  let ds ← s.mapM hexDigit?
  if s = [] ∨ 4 < ds.length then none else some (ofDigits 16 ds)

def readIPv4 (s : List Char) : Option IPv4 := do
  match ← (s.splitOn '.').mapM octet? with
  | [a, b, c, d] => some ⟨a, b, c, d⟩
  | _ => none

/-- The two groups that an IPv4 address at the end stands for. -/
def dotted? (s : List Char) : Option (List Nat) :=
  (readIPv4 s).map fun a => [256 * a.a + a.b, 256 * a.c + a.d]

/-- The groups at the end of a text. -/
def tailGroups : List (List Char) → Option (List Nat)
  | [] => some []
  | [s] => ((group? s).map fun n => [n]).or (dotted? s)
  | s :: t => do
    let n ← group? s
    let ns ← tailGroups t
    pure (n :: ns)

/-- What is between the colons. -/
def fields (s : List Char) : List (List Char) := if s = [] then [] else s.splitOn ':'

/-- What is in front of the first `::`, and what is behind it. -/
def splitCompressed : List Char → Option (List Char × List Char)
  | [] => none
  | [_] => none
  | c :: d :: t => if c = ':' ∧ d = ':' then some ([], t) else (splitCompressed (d :: t)).map fun (l, r) => (c :: l, r)

/-- The groups of an address without a zone; `::` stands for one group at least. -/
def readGroups (s : List Char) : Option (List Nat) :=
  match splitCompressed s with
  | none => tailGroups (s.splitOn ':')
  | some (l, r) => do
    let front ← (fields l).mapM group?
    let back ← tailGroups (fields r)
    if 7 < front.length + back.length then none
    else some (front ++ List.replicate (8 - (front.length + back.length)) 0 ++ back)

/-- `%` and the name of a zone, or nothing. -/
def isZone : List Char → Bool
  | [] => true
  | c :: t => c == '%' && !t.isEmpty && t.all fun c => c.isAlphanum || c == '-' || c == '.' || c == ':'

def readIPv6 (s : List Char) : Option IPv6 :=
  if isZone (s.dropWhile (· ≠ '%')) then
    (readGroups (s.takeWhile (· ≠ '%'))).bind fun groups => if h : groups.length = 8 then some ⟨groups, h⟩ else none
  else none

/-- What a text means. -/
def read (s : List Char) : Option Address := ((readIPv4 s).map .v4).or ((readIPv6 s).map .v6)

/-! ## How a text begins -/

section Beginning

variable {s t l r : List Char} {n : Nat} {h : IPv6}

theorem hexDigit?_eq_some {c : Char} {d : Nat} (hd : hexDigit? c = some d) : d < 16 ∧ c.toLower = Nat.digitChar d := by
  have hmem : d ∈ List.range 16 := List.mem_of_find?_eq_some hd
  have heq := List.find?_some hd
  exact ⟨List.mem_range.mp hmem, (beq_iff_eq.mp heq).symm⟩

theorem mapM_hexDigit? {ds : List Nat} (hds : s.mapM hexDigit? = some ds) :
    (∀ d ∈ ds, d < 16) ∧ s.map Char.toLower = ds.map Nat.digitChar := by
  induction s generalizing ds with
  | nil =>
    cases hds
    exact ⟨by simp, rfl⟩
  | cons c s ih =>
    rw [List.mapM_cons] at hds
    obtain ⟨d, hd, hds⟩ := Option.bind_eq_some_iff.mp hds
    obtain ⟨es, hes, heq⟩ := Option.bind_eq_some_iff.mp hds
    cases heq
    obtain ⟨hlt, hc⟩ := hexDigit?_eq_some hd
    obtain ⟨hall, hmap⟩ := ih hes
    exact ⟨List.forall_mem_cons.mpr ⟨hlt, hall⟩, by rw [List.map_cons, List.map_cons, hc, hmap]⟩

/-- The digits of a group, as its text shows them in lower case. -/
structure Shows (ds : List Nat) (s : List Char) (n : Nat) : Prop where
  nonempty : ds ≠ []
  length : ds.length ≤ 4
  lt : ∀ d ∈ ds, d < 16
  value : n = ofDigits 16 ds
  text : ∃ t, s.map Char.toLower = ds.map Nat.digitChar ++ t

theorem Shows.append {ds : List Nat} (hshows : Shows ds s n) : Shows ds (s ++ t) n := by
  obtain ⟨u, hu⟩ := hshows.text
  refine ⟨hshows.nonempty, hshows.length, hshows.lt, hshows.value, u ++ t.map Char.toLower, ?_⟩
  rw [List.map_append, hu, List.append_assoc]

theorem group?_shows (hs : group? s = some n) : ∃ ds, Shows ds s n := by
  unfold group? at hs
  obtain ⟨ds, hds, hs⟩ := Option.bind_eq_some_iff.mp hs
  split at hs
  · cases hs
  · next hnot =>
    obtain ⟨hne, hlength⟩ := not_or.mp hnot
    cases hs
    obtain ⟨hlt, htext⟩ := mapM_hexDigit? hds
    refine ⟨ds, ?_, Nat.not_lt.mp hlength, hlt, rfl, [], by rw [List.append_nil, htext]⟩
    rintro rfl
    exact hne (List.map_eq_nil_iff.mp htext)

theorem splitCompressed_eq_some (hs : splitCompressed s = some (l, r)) : s = l ++ ':' :: ':' :: r := by
  induction s using splitCompressed.induct generalizing l with
  | case1 => cases hs
  | case2 => cases hs
  | case3 c d t hcolons =>
    rw [splitCompressed, if_pos hcolons] at hs
    cases hs
    rw [hcolons.1, hcolons.2]
    rfl
  | case4 c d t hcolons ih =>
    rw [splitCompressed, if_neg hcolons] at hs
    obtain ⟨⟨l', r'⟩, hl', heq⟩ := Option.map_eq_some_iff.mp hs
    cases heq
    rw [ih hl']
    rfl

/-- The first of the parts of a text is at its beginning. -/
theorem splitOn_first {g : List Char} {gs : List (List Char)} (hs : s.splitOn ':' = g :: gs) : ∃ t, s = g ++ t := by
  have htext : [':'].intercalate (s.splitOn ':') = s := List.intercalate_splitOn ':'
  rw [hs] at htext
  cases gs with
  | nil => exact ⟨[], by rw [← htext]; simp⟩
  | cons g' gs => exact ⟨_, by rw [← htext, List.intercalate_cons_cons, List.append_assoc]⟩

theorem readGroups_cases {groups : List Nat} (hs : readGroups s = some groups) (hlength : groups.length = 8) :
    (∃ t, s = ':' :: t) ∧ groups.headD 0 = 0 ∨ ∃ ds, Shows ds s (groups.headD 0) := by
  unfold readGroups at hs
  cases hsplit : splitCompressed s with
  | none =>
    rw [hsplit] at hs
    right
    cases hparts : s.splitOn ':' with
    | nil => exact absurd hparts (List.splitOn_ne_nil ':' s)
    | cons g gs =>
      rw [hparts] at hs
      obtain ⟨t, rfl⟩ := splitOn_first hparts
      cases gs with
      | nil =>
        -- a text without a colon has two groups at most
        exfalso
        rcases Option.or_eq_some_iff.mp hs with hgroup | ⟨-, hdotted⟩
        · obtain ⟨n, -, rfl⟩ := Option.map_eq_some_iff.mp hgroup
          simp at hlength
        · obtain ⟨a, -, rfl⟩ := Option.map_eq_some_iff.mp hdotted
          simp at hlength
      | cons g' gs =>
        unfold tailGroups at hs
        obtain ⟨n, hn, hs⟩ := Option.bind_eq_some_iff.mp hs
        obtain ⟨ns, -, heq⟩ := Option.bind_eq_some_iff.mp hs
        cases heq
        obtain ⟨ds, hds⟩ := group?_shows hn
        exact ⟨ds, hds.append⟩
  | some p =>
    obtain ⟨l, r⟩ := p
    rw [hsplit] at hs
    obtain ⟨front, hfront, hback⟩ := Option.bind_eq_some_iff.mp hs
    obtain ⟨back, -, hgroups⟩ := Option.bind_eq_some_iff.mp hback
    clear hs hback
    obtain rfl := splitCompressed_eq_some hsplit
    split at hgroups
    · cases hgroups
    · next hle =>
      cases hgroups
      unfold fields at hfront
      split at hfront
      · next hl =>
        rw [List.mapM_nil] at hfront
        cases hfront
        subst hl
        left
        refine ⟨⟨_, rfl⟩, ?_⟩
        obtain ⟨k, hk⟩ : ∃ k, 8 - ([].length + back.length) = k + 1 := ⟨7 - back.length, by simp at hle ⊢; omega⟩
        rw [hk, List.replicate_succ]
        rfl
      · next hl =>
        right
        cases hparts : l.splitOn ':' with
        | nil => exact absurd hparts (List.splitOn_ne_nil ':' l)
        | cons g gs =>
          rw [hparts, List.mapM_cons] at hfront
          obtain ⟨t, rfl⟩ := splitOn_first hparts
          obtain ⟨n, hn, hfront⟩ := Option.bind_eq_some_iff.mp hfront
          obtain ⟨ns, -, heq⟩ := Option.bind_eq_some_iff.mp hfront
          cases heq
          obtain ⟨ds, hds⟩ := group?_shows hn
          refine ⟨ds, ?_⟩
          rw [List.append_assoc]
          exact hds.append

/-- The first group is zero where the text begins with a colon, and the number that the text begins with otherwise. -/
theorem readIPv6_cases (hs : readIPv6 s = some h) :
    (∃ t, s = ':' :: t) ∧ h.first = 0 ∨ ∃ ds, Shows ds s h.first := by
  unfold readIPv6 at hs
  split at hs
  · obtain ⟨groups, hgroups, hs⟩ := Option.bind_eq_some_iff.mp hs
    split at hs
    · next hlength =>
      cases hs
      have hbody : s = s.takeWhile (· ≠ '%') ++ s.dropWhile (· ≠ '%') := List.takeWhile_append_dropWhile.symm
      rcases readGroups_cases hgroups hlength with ⟨⟨t, ht⟩, hzero⟩ | ⟨ds, hds⟩
      · left
        rw [ht] at hbody
        exact ⟨⟨_, hbody⟩, hzero⟩
      · right
        exact ⟨ds, by rw [hbody]; exact hds.append⟩
    · cases hs
  · cases hs

/-- A large first group has four digits, the first of which is `f`. -/
theorem IPv6.first_high (hs : readIPv6 s = some h) (hfirst : 0xfc00 ≤ h.first) :
    ∃ d₂ d₃ d₄ t, d₂ < 16 ∧ d₃ < 16 ∧ d₄ < 16 ∧
    h.first = 0xf000 + 256 * d₂ + 16 * d₃ + d₄ ∧
    s.map Char.toLower = 'f' :: Nat.digitChar d₂ :: Nat.digitChar d₃ :: Nat.digitChar d₄ :: t := by
  rcases readIPv6_cases hs with ⟨-, hzero⟩ | ⟨ds, hds⟩
  · omega
  · obtain ⟨t, ht⟩ := hds.text
    have hvalue := hds.value
    have hlt := hds.lt
    have hlength := hds.length
    match ds with
    | [] => exact absurd rfl hds.nonempty
    | [d₁] =>
      simp only [ofDigits, List.foldl, List.mem_singleton, forall_eq] at hvalue hlt
      omega
    | [d₁, d₂] =>
      simp only [ofDigits, List.foldl, List.forall_mem_cons] at hvalue hlt
      omega
    | [d₁, d₂, d₃] =>
      simp only [ofDigits, List.foldl, List.forall_mem_cons] at hvalue hlt
      omega
    | [d₁, d₂, d₃, d₄] =>
      simp only [ofDigits, List.foldl, List.forall_mem_cons] at hvalue hlt
      obtain ⟨h₁, h₂, h₃, h₄, -⟩ := hlt
      obtain rfl : d₁ = 15 := by omega
      exact ⟨d₂, d₃, d₄, t, h₂, h₃, h₄, by omega, ht⟩
    | _ :: _ :: _ :: _ :: _ :: _ =>
      simp only [List.length_cons] at hlength
      omega

/-- Where the first group is zero, the text begins with a colon or a zero. -/
theorem IPv6.first_zero (hs : readIPv6 s = some h) (hfirst : h.first = 0) :
    ∃ c t, s.map Char.toLower = c :: t ∧ (c = ':' ∨ c = '0') := by
  rcases readIPv6_cases hs with ⟨⟨t, rfl⟩, -⟩ | ⟨ds, hds⟩
  · exact ⟨':', _, rfl, Or.inl rfl⟩
  · obtain ⟨t, ht⟩ := hds.text
    have hvalue := hds.value
    rw [hfirst] at hvalue
    have hfold : ∀ (es : List Nat) (n : Nat), n ≤ es.foldl (fun n d => 16 * n + d) n := by
      intro es
      induction es with
      | nil => simp
      | cons e es ih =>
        intro n
        have := ih (16 * n + e)
        simp only [List.foldl_cons]
        omega
    match ds with
    | [] => exact absurd rfl hds.nonempty
    | d :: ds =>
      have hd : d ≤ ofDigits 16 (d :: ds) := by simpa [ofDigits] using hfold ds (16 * 0 + d)
      obtain rfl : d = 0 := by omega
      exact ⟨'0', _, ht, Or.inr rfl⟩

end Beginning

end IpAddress
