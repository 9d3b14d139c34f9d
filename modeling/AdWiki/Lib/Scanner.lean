import Mathlib

/-!
# Scanning for matches

A text is scanned from left to right for what `read` recognises at a place, which it says with the length of the match;
scanning goes on behind a match. A rewriting puts another text for each match, which may depend on how many there have
been before.

* `located_read`: what is found has been read at its place.
* `lt_ends`: what is put in for a match ends behind what is put in for the ones before.
-/

namespace Scanner

variable {α β : Type*}

/-- A match with its text, or a character between matches. -/
inductive Piece (α β : Type*)
  | char (c : α)
  | found (value : β) (text : List α)

def Piece.text : Piece α β → List α
  | .char c => [c]
  | .found _ text => text

/-- The first argument is what is left of the match that has been read. -/
def pieces (read : List α → Option (β × Nat)) : Nat → List α → List (Piece α β)
  | _, [] => []
  | skip + 1, _ :: cs => pieces read skip cs
  | 0, c :: cs =>
    match read (c :: cs) with
    | some (value, length) => .found value ((c :: cs).take length) :: pieces read (length - 1) cs
    | none => .char c :: pieces read 0 cs

/-- The matches with their places. -/
def located : Nat → List (Piece α β) → List (Nat × β)
  | _, [] => []
  | place, .char _ :: ps => located (place + 1) ps
  | place, .found value text :: ps => (place, value) :: located (place + text.length) ps

/-- The matches with their texts. -/
def matched : List (Piece α β) → List (β × List α)
  | [] => []
  | .char _ :: ps => matched ps
  | .found value text :: ps => (value, text) :: matched ps

/-- Every match is replaced; the second argument counts them. -/
def rewrite (put : Nat → β → List α → List α) : Nat → List (Piece α β) → List α
  | _, [] => []
  | i, .char c :: ps => c :: rewrite put i ps
  | i, .found value text :: ps => put i value text ++ rewrite put (i + 1) ps

/-- The places behind the texts that are put in. -/
def ends (put : Nat → β → List α → List α) : Nat → Nat → List (Piece α β) → List Nat
  | _, _, [] => []
  | place, i, .char _ :: ps => ends put (place + 1) i ps
  | place, i, .found value text :: ps =>
    (place + (put i value text).length) :: ends put (place + (put i value text).length) (i + 1) ps

/-- The rewriting that changes nothing. -/
def keep (_ : Nat) (_ : β) (text : List α) : List α := text

def replaceAll (read : List α → Option (β × Nat)) (replacement : β → List α) (text : List α) : List α :=
  rewrite (fun _ value _ => replacement value) 0 (pieces read 0 text)

/-- The first match is taken out, where `read` says what follows it. -/
def removeFirst (read : List α → Option (List α)) : List α → List α
  | [] => []
  | c :: cs =>
    match read (c :: cs) with
    | some rest => rest
    | none => c :: removeFirst read cs

variable {read : List α → Option (β × Nat)} {put : Nat → β → List α → List α} {ps ps' : List (Piece α β)} {text : List α}
  {value value' : β}
  {place i j k p q n : Nat} {c : α}

theorem pieces_skip (n : Nat) (text : List α) : pieces read n text = pieces read 0 (text.drop n) := by
  induction text generalizing n with
  | nil => cases n <;> rfl
  | cons c text ih =>
    cases n with
    | zero => rfl
    | succ n => exact ih n

theorem pieces_cons_none (h : read (c :: text) = none) : pieces read 0 (c :: text) = .char c :: pieces read 0 text := by
  rw [pieces, h]

theorem pieces_cons_some (h : read (c :: text) = some (value, n + 1)) :
    pieces read 0 (c :: text) = .found value (c :: text.take n) :: pieces read 0 (text.drop n) := by
  rw [pieces, h]
  dsimp only
  rw [Nat.add_sub_cancel, pieces_skip, List.take_succ_cons]

theorem located_shift (m place : Nat) (ps : List (Piece α β)) :
    located (place + m) ps = (located place ps).map fun found => (found.1 + m, found.2) := by
  induction ps generalizing place with
  | nil => rfl
  | cons piece ps ih =>
    cases piece with
    | char c => rw [located, located, ← ih, Nat.add_right_comm]
    | found value text => rw [located, located, List.map_cons, ← ih, Nat.add_right_comm]

theorem located_matched (place : Nat) (ps : List (Piece α β)) :
    (located place ps).map Prod.snd = (matched ps).map Prod.fst := by
  induction ps generalizing place with
  | nil => rfl
  | cons piece ps ih =>
    cases piece with
    | char c => exact ih (place + 1)
    | found value text => exact congrArg (value :: ·) (ih _)

/-- No match is empty, and none goes beyond the text. -/
def Reads (read : List α → Option (β × Nat)) : Prop :=
  ∀ {text value n}, read text = some (value, n) → 0 < n ∧ n ≤ text.length

section Reads

variable (hread : Reads read)
include hread

/-- The induction along a scan. -/
theorem pieces_induction {motive : List α → Prop} (nil : motive [])
    (char : ∀ c text, read (c :: text) = none → motive text → motive (c :: text))
    (found : ∀ c text value n, read (c :: text) = some (value, n + 1) → motive (text.drop n) → motive (c :: text))
    (text : List α) :
    motive text := by
  induction hlength : text.length using Nat.strongRecOn generalizing text with
  | ind length ih =>
    subst hlength
    cases text with
    | nil => exact nil
    | cons c text =>
      cases h : read (c :: text) with
      | none => exact char c text h (ih text.length (Nat.lt_succ_self _) text rfl)
      | some read =>
        obtain ⟨value, n⟩ := read
        obtain ⟨n, rfl⟩ : ∃ m, n = m + 1 := ⟨n - 1, by have hbounds := hread h; omega⟩
        refine found c text value n h (ih (text.drop n).length ?_ _ rfl)
        rw [List.length_drop, List.length_cons]
        omega

theorem located_read (h : (p, value) ∈ located place (pieces read 0 text)) :
    ∃ m n, p = place + m ∧ read (text.drop m) = some (value, n) := by
  induction text using pieces_induction hread generalizing place with
  | nil => cases h
  | char c text hnone ih =>
    rw [pieces_cons_none hnone] at h
    obtain ⟨m, n, rfl, hm⟩ := ih h
    exact ⟨m + 1, n, by omega, hm⟩
  | found c text value' n hsome ih =>
    rw [pieces_cons_some hsome, located] at h
    rcases List.mem_cons.mp h with heq | h
    · cases heq
      exact ⟨0, n + 1, rfl, hsome⟩
    · have hle := (hread hsome).2
      obtain ⟨m, n', rfl, hm⟩ := ih h
      rw [List.drop_drop] at hm
      refine ⟨n + 1 + m, n', ?_, ?_⟩
      · rw [List.length_cons] at hle ⊢
        rw [List.length_take]
        omega
      · rw [Nat.add_right_comm, List.drop_succ_cons]
        exact hm

theorem matched_read {found : β × List α} (h : found ∈ matched (pieces read 0 text)) :
    ∃ m n, read (text.drop m) = some (found.1, n) ∧ found.2 = (text.drop m).take n := by
  induction text using pieces_induction hread with
  | nil => cases h
  | char c text hnone ih =>
    rw [pieces_cons_none hnone] at h
    obtain ⟨m, n, hm, htext⟩ := ih h
    exact ⟨m + 1, n, hm, htext⟩
  | found c text value n hsome ih =>
    rw [pieces_cons_some hsome, matched] at h
    rcases List.mem_cons.mp h with rfl | h
    · exact ⟨0, n + 1, hsome, rfl⟩
    · obtain ⟨m, n', hm, htext⟩ := ih h
      rw [List.drop_drop] at hm htext
      exact ⟨n + m + 1, n', hm, htext⟩

end Reads

/-! ## Ends -/

theorem lt_ends (hput : ∀ i, ∀ found ∈ matched ps, put i found.1 found.2 ≠ []) (h : p ∈ ends put place i ps) :
    place < p := by
  induction ps generalizing place i with
  | nil => cases h
  | cons piece ps ih =>
    cases piece with
    | char c => exact Nat.lt_of_succ_lt (ih hput h)
    | found value text =>
      have hpos := List.length_pos_of_ne_nil (hput i (value, text) List.mem_cons_self)
      rcases List.mem_cons.mp h with rfl | h
      · exact Nat.lt_add_of_pos_right hpos
      · exact Nat.lt_of_le_of_lt (Nat.le_add_right _ _)
          (ih (fun i found hfound => hput i found (List.mem_cons_of_mem _ hfound)) h)

theorem nodup_ends (hput : ∀ i, ∀ found ∈ matched ps, put i found.1 found.2 ≠ []) (place i : Nat) :
    (ends put place i ps).Nodup := by
  induction ps generalizing place i with
  | nil => exact .nil
  | cons piece ps ih =>
    cases piece with
    | char c => exact ih hput (place + 1) i
    | found value text =>
      have hlater : ∀ i, ∀ found ∈ matched ps, put i found.1 found.2 ≠ [] := fun i found hfound =>
        hput i found (List.mem_cons_of_mem _ hfound)
      exact List.nodup_cons.mpr ⟨fun hmem => Nat.lt_irrefl _ (lt_ends hlater hmem), ih hlater _ _⟩

end Scanner
