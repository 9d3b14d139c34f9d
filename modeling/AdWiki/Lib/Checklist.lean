import Mathlib

/-!
# Texts with marked pieces

A text is scanned into pieces, some of which bear a mark, and the mark of the n-th of these is written in place. Where
writing a mark changes neither what the scan recognises nor the other marks (`Format.Lawful`), the marks are a lens on the
text.

* `toggle_eq_none`: only marks that are there can be written.
* `items_toggle`: the mark that has been written is read back, and the others are as before.
* `toggle_toggle`, `toggle_comm`: the last write of a mark counts, and writes of different marks commute.
-/

namespace Checklist

/-! ## The n-th mark -/

section Nth

variable {σ : Type*} {ms : List (Option σ)} {i j k l : Nat} {s : σ}

/-- The place of the n-th mark. -/
def nth : List (Option σ) → Nat → Option Nat
  | [], _ => none
  | none :: ms, i => (nth ms i).map (· + 1)
  | some _ :: _, 0 => some 0
  | some _ :: ms, i + 1 => (nth ms i).map (· + 1)

theorem nth_eq_none : nth ms i = none ↔ ms.reduceOption.length ≤ i := by
  induction ms generalizing i with
  | nil => simp [nth]
  | cons m ms ih =>
    cases m with
    | none => simp [nth, ih, List.reduceOption_cons_of_none]
    | some s =>
      cases i with
      | zero => simp [nth, List.reduceOption_cons_of_some]
      | succ i => simp [nth, ih, List.reduceOption_cons_of_some]

theorem nth_mark (h : nth ms i = some k) : ∃ s, ms[k]? = some (some s) := by
  induction ms generalizing i k with
  | nil => cases h
  | cons m ms ih =>
    cases m with
    | none =>
      obtain ⟨k, hk, rfl⟩ := Option.map_eq_some_iff.mp h
      exact ih hk
    | some s =>
      cases i with
      | zero =>
        cases h
        exact ⟨s, rfl⟩
      | succ i =>
        obtain ⟨k, hk, rfl⟩ := Option.map_eq_some_iff.mp h
        exact ih hk

theorem nth_inj (hi : nth ms i = some k) (hj : nth ms j = some k) : i = j := by
  induction ms generalizing i j k with
  | nil => cases hi
  | cons m ms ih =>
    cases m with
    | none =>
      obtain ⟨k', hk, rfl⟩ := Option.map_eq_some_iff.mp hi
      obtain ⟨l', hl, heq⟩ := Option.map_eq_some_iff.mp hj
      obtain rfl : l' = k' := by omega
      exact ih hk hl
    | some s =>
      cases i with
      | zero =>
        cases hi
        cases j with
        | zero => rfl
        | succ j =>
          obtain ⟨l', -, heq⟩ := Option.map_eq_some_iff.mp hj
          omega
      | succ i =>
        obtain ⟨k', hk, rfl⟩ := Option.map_eq_some_iff.mp hi
        cases j with
        | zero => cases hj
        | succ j =>
          obtain ⟨l', hl, heq⟩ := Option.map_eq_some_iff.mp hj
          obtain rfl : l' = k' := by omega
          rw [ih hk hl]

theorem reduceOption_set (h : nth ms i = some k) : (ms.set k (some s)).reduceOption = ms.reduceOption.set i s := by
  induction ms generalizing i k with
  | nil => cases h
  | cons m ms ih =>
    cases m with
    | none =>
      obtain ⟨k', hk, rfl⟩ := Option.map_eq_some_iff.mp h
      simp [List.reduceOption_cons_of_none, ih hk]
    | some t =>
      cases i with
      | zero =>
        cases h
        simp [List.reduceOption_cons_of_some]
      | succ i =>
        obtain ⟨k', hk, rfl⟩ := Option.map_eq_some_iff.mp h
        simp [List.reduceOption_cons_of_some, ih hk]

/-- The places of the marks stay where one of them is written. -/
theorem nth_set {t : σ} (h : ms[k]? = some (some t)) : nth (ms.set k (some s)) j = nth ms j := by
  induction ms generalizing k j with
  | nil => cases h
  | cons m ms ih =>
    cases k with
    | zero =>
      cases h
      cases j <;> rfl
    | succ k =>
      rw [List.getElem?_cons_succ] at h
      rw [List.set_cons_succ]
      cases m with
      | none => rw [nth, nth, ih h]
      | some t => cases j with
        | zero => rfl
        | succ j => rw [nth, nth, ih h]

end Nth

theorem modify_eq_set {α : Type*} {l : List α} {a : α} {k : Nat} (h : l[k]? = some a) (f : α → α) :
    l.modify k f = l.set k (f a) := by
  rw [List.modify_eq_set_getElem?, h]
  rfl

/-- One element of a list is replaced, and the others make the same text. -/
theorem flatMap_set {α β : Type*} {l : List α} {a : α} {k : Nat} (f : α → List β) (h : l[k]? = some a) :
    ∃ before after, l.flatMap f = before ++ f a ++ after ∧ ∀ b, (l.set k b).flatMap f = before ++ f b ++ after := by
  obtain ⟨hk, rfl⟩ := List.getElem?_eq_some_iff.mp h
  refine ⟨(l.take k).flatMap f, (l.drop (k + 1)).flatMap f, ?_, fun b => ?_⟩
  · have hsplit : l = l.take k ++ l[k] :: l.drop (k + 1) := by rw [← List.drop_eq_getElem_cons hk, List.take_append_drop]
    conv_lhs => rw [hsplit]
    rw [List.flatMap_append, List.flatMap_cons, List.append_assoc]
  · rw [List.set_eq_take_append_cons_drop, if_pos hk]
    simp

/-! ## Formats -/

variable {α P σ : Type*}

structure Format (α P σ : Type*) where
  scan : List α → List P
  join : List P → List α
  marks : List P → List (Option σ)
  put : σ → P → P

namespace Format

variable (F : Format α P σ)

/-- The pieces of the text with a mark written at a place. -/
def written (text : List α) (k : Nat) (s : σ) : List P := (F.scan text).modify k (F.put s)

def items (text : List α) : List σ := (F.marks (F.scan text)).reduceOption

/-- The n-th mark is written. -/
def toggle (text : List α) (i : Nat) (s : σ) : Option (List α) :=
  (nth (F.marks (F.scan text)) i).map fun k => F.join (F.written text k s)

/-- Writing a mark keeps the pieces and the other marks. -/
structure Lawful : Prop where
  scan_written : ∀ text k s t, (F.marks (F.scan text))[k]? = some (some t) →
    F.scan (F.join (F.written text k s)) = F.written text k s
  marks_written : ∀ text k s t, (F.marks (F.scan text))[k]? = some (some t) →
    F.marks (F.written text k s) = (F.marks (F.scan text)).set k (some s)
  put_put : ∀ (text : List α) (k : Nat) (p : P) (s s' t : σ), (F.marks (F.scan text))[k]? = some (some t) →
    (F.scan text)[k]? = some p →
    F.put s' (F.put s p) = F.put s' p

variable {F} {text result : List α} {i j k l : Nat} {s s' t : σ}

theorem toggle_eq_none : F.toggle text i s = none ↔ (F.items text).length ≤ i := by
  rw [toggle, Option.map_eq_none_iff, nth_eq_none]
  rfl

theorem toggle_eq_some (h : F.toggle text i s = some result) : ∃ k t, nth (F.marks (F.scan text)) i = some k ∧
    (F.marks (F.scan text))[k]? = some (some t) ∧ F.join (F.written text k s) = result := by
  obtain ⟨k, hk, rfl⟩ := Option.map_eq_some_iff.mp h
  obtain ⟨t, ht⟩ := nth_mark hk
  exact ⟨k, t, hk, ht, rfl⟩

variable (hF : F.Lawful)

include hF

theorem items_toggle (h : F.toggle text i s = some result) : F.items result = (F.items text).set i s := by
  obtain ⟨k, t, hk, ht, rfl⟩ := toggle_eq_some h
  rw [items, hF.scan_written text k s t ht, hF.marks_written text k s t ht, reduceOption_set hk]
  rfl

/-- A text with one mark written, and what another write makes of it. -/
theorem toggle_written (ht : (F.marks (F.scan text))[k]? = some (some t)) (hl : nth (F.marks (F.scan text)) j = some l) :
    F.toggle (F.join (F.written text k s)) j s' = some (F.join ((F.written text k s).modify l (F.put s'))) := by
  have hscan := hF.scan_written text k s t ht
  have htwice : F.written (F.join (F.written text k s)) l s' = (F.written text k s).modify l (F.put s') := by
    rw [written, hscan]
  rw [toggle, hscan, hF.marks_written text k s t ht, nth_set ht, hl, Option.map_some, htwice]

theorem toggle_toggle (h : F.toggle text i s = some result) : F.toggle result i s' = F.toggle text i s' := by
  obtain ⟨k, t, hk, ht, rfl⟩ := toggle_eq_some h
  have hpieces : (F.written text k s).modify k (F.put s') = F.written text k s' := by
    refine List.ext_getElem? fun m => ?_
    unfold written
    rw [List.getElem?_modify, List.getElem?_modify, List.getElem?_modify]
    by_cases hm : k = m
    · subst hm
      cases hp : (F.scan text)[k]? with
      | none => simp
      | some p => simp [hF.put_put text k p s s' t ht hp]
    · simp [hm]
  rw [toggle_written hF ht hk, hpieces, toggle, hk, Option.map_some]

theorem toggle_comm (hne : i ≠ j) :
    (F.toggle text i s).bind (F.toggle · j s') = (F.toggle text j s').bind (F.toggle · i s) := by
  cases hi : nth (F.marks (F.scan text)) i with
  | none =>
    cases hj : nth (F.marks (F.scan text)) j with
    | none => simp [toggle, hi, hj]
    | some l =>
      obtain ⟨t, ht⟩ := nth_mark hj
      have hnone : F.toggle (F.join (F.written text l s')) i s = none := by
        rw [toggle, hF.scan_written text l s' t ht, hF.marks_written text l s' t ht, nth_set ht, hi, Option.map_none]
      have hleft : F.toggle text i s = none := by rw [toggle, hi, Option.map_none]
      have hright : F.toggle text j s' = some (F.join (F.written text l s')) := by rw [toggle, hj, Option.map_some]
      rw [hleft, hright, Option.bind_none, Option.bind_some, hnone]
  | some k =>
    obtain ⟨t, ht⟩ := nth_mark hi
    have hleft : F.toggle text i s = some (F.join (F.written text k s)) := by rw [toggle, hi, Option.map_some]
    cases hj : nth (F.marks (F.scan text)) j with
    | none =>
      have hnone : F.toggle (F.join (F.written text k s)) j s' = none := by
        rw [toggle, hF.scan_written text k s t ht, hF.marks_written text k s t ht, nth_set ht, hj, Option.map_none]
      have hright : F.toggle text j s' = none := by rw [toggle, hj, Option.map_none]
      rw [hleft, hright, Option.bind_none, Option.bind_some, hnone]
    | some l =>
      obtain ⟨t', ht'⟩ := nth_mark hj
      have hright : F.toggle text j s' = some (F.join (F.written text l s')) := by rw [toggle, hj, Option.map_some]
      have hkl : k ≠ l := fun heq => hne (nth_inj hi (heq ▸ hj))
      have hpieces : (F.written text k s).modify l (F.put s') = (F.written text l s').modify k (F.put s) := by
        refine List.ext_getElem? fun m => ?_
        unfold written
        simp only [List.getElem?_modify]
        by_cases hk : k = m
        · have hl : l ≠ m := fun heq => hkl (hk.trans heq.symm)
          simp [hk, hl]
        · simp [hk]
      rw [hleft, hright, Option.bind_some, Option.bind_some, toggle_written hF ht hj, toggle_written hF ht' hi, hpieces]

end Format

end Checklist
