import Mathlib

/-!
# Chains of ancestors

Rows are looked up by key (`row`), and a row may name the key of a parent (`parent`). `Chain row parent x l` says that
`l` are the rows met on the way from the row of `x` up to a row without a parent; a key has at most one chain, and no
key occurs twice in it (`Chain.unique`, `Chain.nodup`).

How a chain changes with the table:

* `Chain.keep`: where rows keep their parent or lose it, chains do not get longer.
* `Chain.reroute`: where one row changes its parent, a chain through that row continues with its new chain.
* `Chain.regraft`: where one row gets another parent, whose chain it is not in, a chain through that row continues
  with the chain of the new parent.
-/

namespace Ancestors

variable {κ α : Type*}

/-- The rows from `x` up to a root. -/
inductive Chain (row : κ → Option α) (parent : α → Option κ) : κ → List α → Prop
  | root {x a} : row x = some a → parent a = none → Chain row parent x [a]
  | child {x a y l} : row x = some a → parent a = some y → Chain row parent y l → Chain row parent x (a :: l)

variable {row row' : κ → Option α} {parent : α → Option κ} {key : α → κ} {x y z : κ} {a b : α} {l m : List α}

theorem Chain.head (h : Chain row parent x l) : ∃ a tl, row x = some a ∧ l = a :: tl := by
  cases h with
  | root hrow _ => exact ⟨_, _, hrow, rfl⟩
  | child hrow _ _ => exact ⟨_, _, hrow, rfl⟩

theorem Chain.unique (hl : Chain row parent x l) (hm : Chain row parent x m) : l = m := by
  induction hl generalizing m with
  | root hrow hroot =>
    cases hm with
    | root hrow' _ => rw [Option.some.inj (hrow.symm.trans hrow')]
    | child hrow' hchild _ =>
      obtain rfl := Option.some.inj (hrow.symm.trans hrow')
      rw [hroot] at hchild
      cases hchild
  | child hrow hchild _ ih =>
    cases hm with
    | root hrow' hroot =>
      obtain rfl := Option.some.inj (hrow.symm.trans hrow')
      rw [hchild] at hroot
      cases hroot
    | child hrow' hchild' htl =>
      obtain rfl := Option.some.inj (hrow.symm.trans hrow')
      obtain rfl := Option.some.inj (hchild.symm.trans hchild')
      rw [ih htl]

/-- Every row of a chain begins a chain, which is the rest of the list. -/
theorem Chain.split (hkey : ∀ {x a}, row x = some a → key a = x) (h : Chain row parent x l) (ha : a ∈ l) :
    ∃ l₁ l₂, l = l₁ ++ a :: l₂ ∧ Chain row parent (key a) (a :: l₂) ∧ row (key a) = some a := by
  induction h with
  | root hrow hroot =>
    obtain rfl := List.mem_singleton.mp ha
    have hx := hkey hrow
    exact ⟨[], [], rfl, hx ▸ .root hrow hroot, hx ▸ hrow⟩
  | child hrow hchild htl ih =>
    rcases List.mem_cons.mp ha with rfl | ha
    · have hx := hkey hrow
      exact ⟨[], _, rfl, hx ▸ .child hrow hchild htl, hx ▸ hrow⟩
    · obtain ⟨l₁, l₂, rfl, hchain, hfound⟩ := ih ha
      exact ⟨_ :: l₁, l₂, rfl, hchain, hfound⟩

/-- A chain ends, so it meets no key twice. -/
theorem Chain.nodup (hkey : ∀ {x a}, row x = some a → key a = x) (h : Chain row parent x l) : (l.map key).Nodup := by
  induction h with
  | root => simp
  | @child x a y l hrow hchild htl ih =>
    refine List.nodup_cons.mpr ⟨fun hmem => ?_, ih⟩
    obtain ⟨b, hb, hba⟩ := List.mem_map.mp hmem
    obtain ⟨l₁, l₂, hsplit, hchain, -⟩ := htl.split hkey hb
    rw [hba, hkey hrow] at hchain
    -- the chain of `x` would be a proper part of itself
    have hlen := congrArg List.length ((Chain.child hrow hchild htl).unique hchain)
    rw [hsplit] at hlen
    simp only [List.length_cons, List.length_append] at hlen
    omega

/-- New rows do not change a chain. -/
theorem Chain.mono (hsame : ∀ x a, row x = some a → row' x = some a) (h : Chain row parent x l) :
    Chain row' parent x l := by
  induction h with
  | root hrow hroot => exact .root (hsame _ _ hrow) hroot
  | child hrow hchild _ ih => exact .child (hsame _ _ hrow) hchild ih

/-- Rows of `S` keep a parent of `S`, or have none afterwards. -/
def Keeps (row row' : κ → Option α) (parent : α → Option κ) (S : κ → Prop) : Prop :=
  ∀ x a, S x → row x = some a → ∃ a', row' x = some a' ∧
    (parent a' = none ∨ ∃ y, parent a' = some y ∧ parent a = some y ∧ S y)

theorem Chain.keep {S : κ → Prop} (hkeeps : Keeps row row' parent S) (h : Chain row parent x l) (hx : S x) :
    ∃ l', Chain row' parent x l' ∧ l'.length ≤ l.length := by
  induction h with
  | root hrow hroot =>
    obtain ⟨a', hrow', hparent⟩ := hkeeps _ _ hx hrow
    rcases hparent with hnone | ⟨y, -, hy, -⟩
    · exact ⟨[a'], .root hrow' hnone, Nat.le_refl _⟩
    · rw [hroot] at hy
      cases hy
  | child hrow hchild htl ih =>
    obtain ⟨a', hrow', hparent⟩ := hkeeps _ _ hx hrow
    rcases hparent with hnone | ⟨y, hy', hy, hSy⟩
    · exact ⟨[a'], .root hrow' hnone, by simp⟩
    · obtain rfl := Option.some.inj (hchild.symm.trans hy)
      obtain ⟨l', hl', hlen⟩ := ih hSy
      exact ⟨a' :: l', .child hrow' hy' hl', by simpa using hlen⟩

/-- A chain that avoids the key of a changed row keeps its length. -/
theorem Chain.avoid (hkey : ∀ {x a}, row x = some a → key a = x)
    (hsame : ∀ x a, x ≠ z → row x = some a → ∃ a', row' x = some a' ∧ parent a' = parent a)
    (h : Chain row parent x l) (hz : z ∉ l.map key) : ∃ l', Chain row' parent x l' ∧ l'.length = l.length := by
  induction h with
  | @root x a hrow hroot =>
    have hne : x ≠ z := fun hxz => hz (by simp [← hxz, hkey hrow])
    obtain ⟨a', hrow', hparent⟩ := hsame _ _ hne hrow
    exact ⟨[a'], .root hrow' (hparent.trans hroot), rfl⟩
  | @child x a y l hrow hchild htl ih =>
    have hne : x ≠ z := fun hxz => hz (by simp [← hxz, hkey hrow])
    obtain ⟨a', hrow', hparent⟩ := hsame _ _ hne hrow
    obtain ⟨l', hl', hlen⟩ := ih fun hmem => hz (List.mem_cons_of_mem _ hmem)
    exact ⟨a' :: l', .child hrow' (hparent.trans hchild) hl', by simp [hlen]⟩

/-- Where only the row of `z` changes its parent, a chain through `z` continues with the new chain `w` of `z`. -/
theorem Chain.reroute (hkey : ∀ {x a}, row x = some a → key a = x)
    (hsame : ∀ x a, x ≠ z → row x = some a → ∃ a', row' x = some a' ∧ parent a' = parent a)
    (h : Chain row parent x l) (hw : Chain row' parent z m) (hz : z ∈ l.map key) :
    ∃ old l', Chain row parent z old ∧ Chain row' parent x l' ∧ l'.length + old.length = l.length + m.length := by
  induction h with
  | @root x a hrow hroot =>
    obtain rfl : z = x := by simpa [hkey hrow] using hz
    exact ⟨[a], m, .root hrow hroot, hw, Nat.add_comm _ _⟩
  | @child x a y tl hrow hchild htl ih =>
    by_cases hxz : x = z
    · subst hxz
      exact ⟨a :: tl, m, .child hrow hchild htl, hw, Nat.add_comm _ _⟩
    · have htail : z ∈ tl.map key := by
        rcases List.mem_cons.mp hz with hza | htail
        · exact absurd (hza.trans (hkey hrow)).symm hxz
        · exact htail
      obtain ⟨a', hrow', hparent⟩ := hsame _ _ hxz hrow
      obtain ⟨old, l', hold, hl', hsize⟩ := ih htail
      refine ⟨old, a' :: l', hold, .child hrow' (hparent.trans hchild) hl', ?_⟩
      simp only [List.length_cons]
      omega

/-- The row of `z` gets the parent `y`, whose chain `m` avoids `z`. A chain that avoids `z` keeps its length; in one
through `z` the chain of `z` is replaced by `z` and the chain of `y`. -/
theorem Chain.regraft (hkey : ∀ {x a}, row x = some a → key a = x)
    (hsame : ∀ x a, x ≠ z → row x = some a → ∃ a', row' x = some a' ∧ parent a' = parent a)
    (hz : row' z = some b) (hb : parent b = some y) (hm : Chain row parent y m) (havoid : z ∉ m.map key)
    (h : Chain row parent x l) :
    (z ∉ l.map key ∧ ∃ l', Chain row' parent x l' ∧ l'.length = l.length) ∨
      ∃ old, Chain row parent z old ∧ z ∈ l.map key ∧
        ∃ l', Chain row' parent x l' ∧ l'.length + old.length = l.length + m.length + 1 := by
  classical
  obtain ⟨m', hm', hlen⟩ := hm.avoid hkey hsame havoid
  by_cases hmem : z ∈ l.map key
  · obtain ⟨old, l', hold, hl', hsize⟩ := h.reroute hkey hsame (.child hz hb hm') hmem
    refine Or.inr ⟨old, hold, hmem, l', hl', ?_⟩
    rw [hsize, List.length_cons, hlen]
    omega
  · exact Or.inl ⟨hmem, h.avoid hkey hsame hmem⟩

/-- What holds of a row and, along a parent, of the parent's row holds on the whole chain. -/
theorem Chain.forall {Q : α → Prop} (hup : ∀ {a b y}, Q a → parent a = some y → row y = some b → Q b)
    (h : Chain row parent x l) (hrow : row x = some a) (ha : Q a) : ∀ b ∈ l, Q b := by
  induction h generalizing a with
  | root hrow' _ =>
    obtain rfl := Option.some.inj (hrow.symm.trans hrow')
    simpa using ha
  | child hrow' hchild htl ih =>
    obtain rfl := Option.some.inj (hrow.symm.trans hrow')
    obtain ⟨b, tl, hb, -⟩ := htl.head
    have hQb : Q b := hup ha hchild hb
    intro c hc
    rcases List.mem_cons.mp hc with rfl | hc
    · exact ha
    · exact ih hb hQb c hc

end Ancestors
