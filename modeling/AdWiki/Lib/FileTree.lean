import Mathlib

/-!
# Files written into a tree

A file system below one directory is the list of its files, each with its path. A file that is written takes the place
of the file at its path, of a file that stands where its path needs a directory, and of all files in a directory that
stands at its path.

* `extract_perm_iff`: of the files that are written one after the other all are left iff no path leads to or through
  another one.
-/

namespace FileTree

variable {α β : Type}

/-- Neither path leads to or through the other. -/
def Clear (path path' : List α) : Prop := ¬path <+: path' ∧ ¬path' <+: path

theorem Clear.symm {path path' : List α} (h : Clear path path') : Clear path' path := ⟨h.2, h.1⟩

/-- Paths that are told apart when less is compared are told apart. -/
theorem Clear.of_map {γ : Type} {f : α → γ} {path path' : List α} (h : Clear (path.map f) (path'.map f)) :
    Clear path path' :=
  ⟨fun hle => h.1 (hle.map f), fun hle => h.2 (hle.map f)⟩

theorem ne_of_clear {path path' : List α} (h : Clear path path') : path ≠ path' := by
  rintro rfl
  exact h.1 (List.prefix_refl path)

/-- Two files in two directories. -/
theorem clear_concat {dir dir' : List α} {name name' : α} : Clear (dir ++ [name]) (dir' ++ [name']) ↔
    ¬(dir = dir' ∧ name = name') ∧ ¬dir ++ [name] <+: dir' ∧ ¬dir' ++ [name'] <+: dir := by
  rw [Clear, List.prefix_concat_iff, List.prefix_concat_iff, ← List.concat_eq_append, ← List.concat_eq_append,
    List.concat_inj, List.concat_inj]
  constructor
  · rintro ⟨hle, hge⟩
    exact ⟨fun heq => hle (Or.inl heq), fun h => hle (Or.inr h), fun h => hge (Or.inr h)⟩
  · rintro ⟨hne, hle, hge⟩
    exact ⟨fun h => h.elim hne hle, fun h => h.elim (fun heq => hne ⟨heq.1.symm, heq.2.symm⟩) hge⟩

section Written

variable [DecidableEq α] {files tree : List (List α × β)} {file : List α × β}

instance (path path' : List α) : Decidable (Clear path path') := inferInstanceAs (Decidable (_ ∧ _))

def write (tree : List (List α × β)) (file : List α × β) : List (List α × β) :=
  file :: tree.filter fun old => decide (Clear old.1 file.1)

/-- The files are written one after the other into an empty directory. -/
def extract (files : List (List α × β)) : List (List α × β) := files.foldl write []

theorem extract_append_singleton : extract (files ++ [file]) = write (extract files) file := by
  rw [extract, List.foldl_append, List.foldl_cons, List.foldl_nil, ← extract]

theorem length_extract_le : (extract files).length ≤ files.length := by
  induction files using List.reverseRecOn with
  | nil => exact Nat.le_refl 0
  | append_singleton files file ih =>
    rw [extract_append_singleton, write, List.length_cons, List.length_append, List.length_singleton]
    exact Nat.succ_le_succ ((List.length_filter_le _ _).trans ih)

theorem extract_of_clear (h : (files.map Prod.fst).Pairwise Clear) : extract files = files.reverse := by
  induction files using List.reverseRecOn with
  | nil => rfl
  | append_singleton files file ih =>
    rw [List.map_append, List.pairwise_append] at h
    have hkept : files.reverse.filter (fun old => decide (Clear old.1 file.1)) = files.reverse := by
      refine List.filter_eq_self.mpr fun old hold => decide_eq_true ?_
      exact h.2.2 old.1 (List.mem_map_of_mem (List.mem_reverse.mp hold)) file.1 List.mem_cons_self
    rw [extract_append_singleton, ih h.1, write, hkept, List.reverse_append, List.reverse_singleton,
      List.singleton_append]

theorem clear_of_length (h : (extract files).length = files.length) : (files.map Prod.fst).Pairwise Clear := by
  induction files using List.reverseRecOn with
  | nil => exact List.Pairwise.nil
  | append_singleton files file ih =>
    rw [extract_append_singleton, write, List.length_cons, List.length_append, List.length_singleton] at h
    -- nothing was lost before the last file, and nothing by it
    have hfilter := List.length_filter_le (fun old => decide (Clear old.1 file.1)) (extract files)
    have hle := @length_extract_le _ _ _ files
    have hclear := ih (by omega)
    have hall :
      ((extract files).filter fun old => decide (Clear old.1 file.1)).length = (extract files).length := by omega
    rw [List.length_filter_eq_length_iff] at hall
    rw [extract_of_clear hclear] at hall
    rw [List.map_append, List.pairwise_append]
    refine ⟨hclear, List.pairwise_singleton _ _, ?_⟩
    rintro path hpath path' hpath'
    obtain ⟨old, hold, rfl⟩ := List.mem_map.mp hpath
    obtain rfl := List.mem_singleton.mp hpath'
    exact of_decide_eq_true (hall old (List.mem_reverse.mpr hold))

/-- **Nothing is overwritten.** -/
theorem extract_perm_iff : (extract files).Perm files ↔ (files.map Prod.fst).Pairwise Clear := by
  constructor
  · exact fun hperm => clear_of_length hperm.length_eq
  · intro hclear
    rw [extract_of_clear hclear]
    exact List.reverse_perm files

end Written

end FileTree
