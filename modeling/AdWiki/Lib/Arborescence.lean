import Mathlib

/-!
# Rooted trees in lists of nodes and edges

`Arborescence nodes edges root`: the edges `(parent, child)` give every node but the root exactly one parent, and every
node has a way up to the root. A tree is built from its root (`single`) by hanging rows below nodes that are there already
or below each other, where that makes no cycle (`attach`). Where the nodes have levels and the rows of a level are hung up
together, no node is met twice (`UpTo`).
-/

open Relation

/-- The edges are a tree of all the nodes. -/
structure Arborescence {α : Type*} (nodes : List α) (edges : List (α × α)) (root : α) : Prop where
  nodup : nodes.Nodup
  root_mem : root ∈ nodes
  source_mem : ∀ e ∈ edges, e.1 ∈ nodes
  /-- Every node but the root is the child of one edge, and the root of none. -/
  parents : nodes.Perm (root :: edges.map Prod.snd)
  reaches : ∀ a ∈ nodes, ReflTransGen (fun a b => (b, a) ∈ edges) a root

namespace Arborescence

variable {α β : Type*} {nodes : List α} {edges : List (α × α)} {root a : α} {l : List β} {key parent : β → α}

theorem single (root : α) : Arborescence [root] [] root where
  nodup := List.nodup_singleton root
  root_mem := List.mem_singleton_self root
  source_mem := by simp
  parents := .refl _
  reaches := by
    intro a ha
    rw [List.mem_singleton.mp ha]

/-- A node other than the root is the child of exactly one edge. -/
theorem unique_parent (h : Arborescence nodes edges root) (ha : a ∈ nodes) (hne : a ≠ root) :
    ∃! e, e ∈ edges ∧ e.2 = a := by
  have hnodup := h.parents.nodup_iff.mp h.nodup
  have hmem : a ∈ root :: edges.map Prod.snd := h.parents.mem_iff.mp ha
  obtain ⟨e, he, rfl⟩ := List.mem_map.mp ((List.mem_cons.mp hmem).resolve_left hne)
  refine ⟨e, ⟨he, rfl⟩, ?_⟩
  rintro e' ⟨he', hsame⟩
  exact List.inj_on_of_nodup_map (List.nodup_cons.mp hnodup).2 he' he hsame

theorem target_mem (h : Arborescence nodes edges root) {e : α × α} (he : e ∈ edges) : e.2 ∈ nodes :=
  h.parents.mem_iff.mpr (List.mem_cons_of_mem _ (List.mem_map_of_mem he))

/-- A row of the list and another one that is its parent. -/
def Below (l : List β) (key parent : β → α) (a b : α) : Prop := ∃ x ∈ l, ∃ y ∈ l, key x = a ∧ key y = b ∧ parent x = b

/-- In a list of rows without a cycle, what passes to a row from the row that is its parent holds of all rows. -/
theorem below_induction {P : β → Prop} (hacyclic : ∀ a, ¬TransGen (Below l key parent) a a)
    (hstep : ∀ x ∈ l, (∀ y ∈ l, key y = parent x → P y) → P x) : ∀ x ∈ l, P x := by
  have hstrict : IsStrictOrder α (TransGen fun b a => Below l key parent a b) :=
    { irrefl := fun a ha => hacyclic a (transGen_swap.mp ha)
      trans := fun _ _ _ => TransGen.trans }
  have hfinite : {a | ∃ x ∈ l, key x = a}.Finite := (l.map key).finite_toSet.subset fun a ⟨x, hx, hxa⟩ =>
    List.mem_map.mpr ⟨x, hx, hxa⟩
  have hall : ∀ a ∈ {a | ∃ x ∈ l, key x = a}, ∀ x ∈ l, key x = a → P x := by
    intro a ha
    have hwell : {a | ∃ x ∈ l, key x = a}.WellFoundedOn (TransGen fun b a => Below l key parent a b) :=
      hfinite.wellFoundedOn
    refine hwell.induction (P := fun a => ∀ x ∈ l, key x = a → P x) ha fun a _ ih x hx hxa => ?_
    refine hstep x hx fun y hy hyx => ih (key y) ⟨y, hy, rfl⟩ ?_ y hy rfl
    exact TransGen.single ⟨x, hx, y, hy, hxa, rfl, hyx.symm⟩
  exact fun x hx => hall (key x) ⟨x, hx, rfl⟩ x hx rfl

/-- Rows that hang below nodes of the tree or below each other, without a cycle. -/
theorem attach (h : Arborescence nodes edges root) (hnodup : (l.map key).Nodup) (hnew : ∀ x ∈ l, key x ∉ nodes)
    (hparent : ∀ x ∈ l, parent x ∈ nodes ∨ ∃ y ∈ l, key y = parent x)
    (hacyclic : ∀ a, ¬TransGen (Below l key parent) a a) :
    Arborescence (nodes ++ l.map key) (edges ++ l.map fun x => (parent x, key x)) root where
  nodup := by
    refine List.nodup_append.mpr ⟨h.nodup, hnodup, ?_⟩
    rintro a ha _ hb rfl
    obtain ⟨x, hx, rfl⟩ := List.mem_map.mp hb
    exact hnew x hx ha
  root_mem := List.mem_append_left _ h.root_mem
  source_mem := by
    intro e he
    rcases List.mem_append.mp he with he | he
    · exact List.mem_append_left _ (h.source_mem e he)
    · obtain ⟨x, hx, rfl⟩ := List.mem_map.mp he
      rcases hparent x hx with hold | ⟨y, hy, hyx⟩
      · exact List.mem_append_left _ hold
      · exact List.mem_append_right _ (List.mem_map.mpr ⟨y, hy, hyx⟩)
  parents := by
    have hkeys : (l.map fun x => (parent x, key x)).map Prod.snd = l.map key := by
      rw [List.map_map]
      rfl
    rw [List.map_append, hkeys, ← List.cons_append]
    exact h.parents.append_right _
  reaches := by
    have hold : ∀ a ∈ nodes, ReflTransGen (fun a b => (b, a) ∈ edges ++ l.map fun x => (parent x, key x)) a root :=
      fun a ha => ReflTransGen.mono (fun _ _ he => List.mem_append_left _ he) _ _ (h.reaches a ha)
    intro a ha
    rcases List.mem_append.mp ha with ha | ha
    · exact hold a ha
    · obtain ⟨x, hx, rfl⟩ := List.mem_map.mp ha
      refine below_induction (P := fun x => ReflTransGen _ (key x) root) hacyclic (fun x hx ih => ?_) x hx
      have hedge : (parent x, key x) ∈ edges ++ l.map fun x => (parent x, key x) :=
        List.mem_append_right _ (List.mem_map_of_mem hx)
      refine ReflTransGen.head hedge ?_
      rcases hparent x hx with hmem | ⟨y, hy, hyx⟩
      · exact hold _ hmem
      · exact hyx ▸ ih y hy hyx

/-! ## Trees by levels -/

/-- A tree of nodes below a level. -/
def UpTo (level : α → Nat) (n : Nat) (nodes : List α) (edges : List (α × α)) (root : α) : Prop :=
  Arborescence nodes edges root ∧ ∀ a ∈ nodes, level a < n

variable {level : α → Nat} {n : Nat}

/-- The rows of the next level. -/
theorem UpTo.attach (h : UpTo level n nodes edges root) (l : List β) (key parent : β → α)
    (hlevel : ∀ x ∈ l, level (key x) = n) (hnodup : (l.map key).Nodup)
    (hparent : ∀ x ∈ l, parent x ∈ nodes ∨ ∃ y ∈ l, key y = parent x)
    (hacyclic : ∀ a, ¬TransGen (Below l key parent) a a) :
    UpTo level (n + 1) (nodes ++ l.map key) (edges ++ l.map fun x => (parent x, key x)) root := by
  have hnew : ∀ x ∈ l, key x ∉ nodes := by
    intro x hx hmem
    have hlow := h.2 _ hmem
    rw [hlevel x hx] at hlow
    exact Nat.lt_irrefl n hlow
  refine ⟨h.1.attach hnodup hnew hparent hacyclic, fun a ha => ?_⟩
  rcases List.mem_append.mp ha with ha | ha
  · exact (h.2 a ha).trans (Nat.lt_succ_self n)
  · obtain ⟨x, hx, rfl⟩ := List.mem_map.mp ha
    rw [hlevel x hx]
    exact Nat.lt_succ_self n

/-- The rows of the next level, all of them below nodes of the tree. -/
theorem UpTo.attachLeaves (h : UpTo level n nodes edges root) (l : List β) (key parent : β → α)
    (hlevel : ∀ x ∈ l, level (key x) = n)
    (hnodup : (l.map key).Nodup) (hparent : ∀ x ∈ l, parent x ∈ nodes) :
    UpTo level (n + 1) (nodes ++ l.map key) (edges ++ l.map fun x => (parent x, key x)) root := by
  have hnone : ∀ a b, ¬Below l key parent a b := by
    rintro a b ⟨x, hx, y, hy, -, rfl, hxy⟩
    have hlow := h.2 _ (hparent x hx)
    rw [hxy, hlevel y hy] at hlow
    exact Nat.lt_irrefl n hlow
  refine h.attach l key parent hlevel hnodup (fun x hx => Or.inl (hparent x hx)) fun a hcycle => ?_
  obtain ⟨b, hab, -⟩ := TransGen.head'_iff.mp hcycle
  exact hnone a b hab

end Arborescence
