import Mathlib

/-!
# Row locks

Under read-committed isolation a transaction that has written a row holds its lock until it ends, and another
statement that comes to the row waits. A lock names the row's key, the transaction that owns it, and a mode of the
user's choice. `acquire` is not enabled while another transaction owns the row (`none`), so a row has one owner
(`exclusive`, kept by `nodup_acquire` and `nodup_release`).
-/

namespace RowLocks

variable {κ μ : Type*}

structure Lock (κ μ : Type*) where
  row : κ
  owner : Nat
  mode : μ

variable {locks locks' : List (Lock κ μ)} {k : κ} {i j : Nat} {m : μ} {a b : Lock κ μ}

section Defs

variable [DecidableEq κ]

/-- Takes the lock of a row that nobody holds. -/
def acquire (locks : List (Lock κ μ)) (k : κ) (i : Nat) (m : μ) : Option (List (Lock κ μ)) :=
  if locks.any (·.row == k) then none else some (⟨k, i, m⟩ :: locks)

end Defs

/-- All locks of a transaction go when it ends. -/
def release (locks : List (Lock κ μ)) (i : Nat) : List (Lock κ μ) := locks.filter (·.owner != i)

@[simp] theorem mem_release : a ∈ release locks i ↔ a ∈ locks ∧ a.owner ≠ i := by
  simp [release]

/-- A row has one lock. -/
theorem exclusive (h : (locks.map Lock.row).Nodup) (ha : a ∈ locks) (hb : b ∈ locks) (hrow : a.row = b.row) : a = b :=
  List.inj_on_of_nodup_map h ha hb hrow

theorem nodup_release (h : (locks.map Lock.row).Nodup) : ((release locks i).map Lock.row).Nodup :=
  h.sublist (List.filter_sublist.map Lock.row)

section Acquire

variable [DecidableEq κ]

theorem acquire_eq_some (h : acquire locks k i m = some locks') :
    locks' = ⟨k, i, m⟩ :: locks ∧ ∀ lock ∈ locks, lock.row ≠ k := by
  unfold acquire at h
  split at h
  · cases h
  · next hfree => exact ⟨(Option.some.inj h).symm, by simpa using hfree⟩

theorem nodup_acquire (h : acquire locks k i m = some locks') (hn : (locks.map Lock.row).Nodup) :
    (locks'.map Lock.row).Nodup := by
  obtain ⟨rfl, hfree⟩ := acquire_eq_some h
  refine List.nodup_cons.mpr ⟨fun hmem => ?_, hn⟩
  obtain ⟨lock, hlock, hrow⟩ := List.mem_map.mp hmem
  exact hfree lock hlock hrow

end Acquire

end RowLocks
