import AdWiki.Lib.OrderedMap
import Mathlib

/-!
# Paths in trees of objects

A tree has leaves and nodes with named members; a node can be an array, into which no path leads. A name that a node does
not have may still be one that every object inherits (`inherited`).

* `get_set`, `set_set`: what has been set is read, and the last one counts.
* `get_set_other`: what another path leads to, where neither path begins with the other. It is what it was, unless the
  path ends at an inherited name of an object that had to be made on the way (`Made`).
-/

namespace ObjectTree

inductive ValueTree (β : Type)
  | leaf (value : β)
  | node (isArray : Bool) (members : List (String × ValueTree β))

/-- What is found under a name. -/
inductive Found (α : Type)
  | undefined
  | inherited (name : String)
  | own (value : α)
  deriving DecidableEq

/-- The member of an object. -/
def member {α : Type} (inherited : String → Bool) (members : List (String × α)) (name : String) : Found α :=
  match members.lookup name with
  | some value => .own value
  | none => if inherited name then .inherited name else .undefined

variable {β : Type}

section Defs

variable (inherited : String → Bool)

/-- What a path leads to. -/
def get : Found (ValueTree β) → List String → Found (ValueTree β)
  | found, [] => found
  | .own (.node false members), name :: path => get (member inherited members name) path
  | _, _ :: _ => .undefined

/-- The members with a value at the end of a path; objects that are missing on the way are made. -/
def set (members : List (String × ValueTree β)) : List String → ValueTree β → Option (List (String × ValueTree β))
  | [], _ => none
  | [name], value => some (OrderedMap.setEntry name value members)
  | name :: path, value =>
    match member inherited members name with
    | .undefined => (set [] path value).map fun inner => OrderedMap.setEntry name (.node false inner) members
    | .own (.node false inner) => (set inner path value).map fun inner =>
      OrderedMap.setEntry name (.node false inner) members
    | _ => none

/-- The path ends at an inherited name of an object that is not there before something is set at the end of `path`. -/
def Made (members : List (String × ValueTree β)) (path other : List String) : Prop :=
  ∃ way name, other = way ++ [name] ∧ way ≠ [] ∧ way <+: path ∧
    get inherited (.own (.node false members)) way = .undefined ∧
    inherited name = true

end Defs

variable {inherited : String → Bool} {members members' : List (String × ValueTree β)} {name : String}
  {path other : List String}
  {value value' : ValueTree β} {found : Found (ValueTree β)}

theorem member_setEntry {other : String} : member inherited (OrderedMap.setEntry name value members) other =
    if other = name then .own value else member inherited members other := by
  unfold member
  rw [OrderedMap.lookup_setEntry]
  by_cases h : other = name
  · rw [if_pos h, if_pos h]
  · rw [if_neg h, if_neg h]

theorem member_setEntry_self {α : Type} {value : α} (members : List (String × α)) :
    member inherited (OrderedMap.setEntry name value members) name = .own value := by
  unfold member
  rw [OrderedMap.lookup_setEntry, if_pos rfl]

@[simp] theorem get_undefined (h : path ≠ []) : get inherited (.undefined : Found (ValueTree β)) path = .undefined := by
  cases path with
  | nil => exact absurd rfl h
  | cons name path => rfl

theorem get_of_not_object (h : ∀ inner, found ≠ .own (.node false inner)) :
    get inherited found (name :: path) = .undefined := by
  rw [get]
  rintro inner rfl
  exact h inner rfl

/-- What stands under the first name of a longer path, before something is set at its end. -/
theorem set_cons (hpath : path ≠ []) (h : set inherited members (name :: path) value = some members') :
    ∃ inner inner',
      (member inherited members name = .own (.node false inner) ∨
        member inherited members name = .undefined ∧ inner = []) ∧
      set inherited inner path value = some inner' ∧
        members' = OrderedMap.setEntry name (.node false inner') members := by
  obtain ⟨next, path, rfl⟩ := List.exists_cons_of_ne_nil hpath
  rw [set] at h
  split at h
  · next hmember =>
    obtain ⟨inner', hinner, rfl⟩ := Option.map_eq_some_iff.mp h
    exact ⟨[], inner', Or.inr ⟨hmember, rfl⟩, hinner, rfl⟩
  · next inner hmember =>
    obtain ⟨inner', hinner, rfl⟩ := Option.map_eq_some_iff.mp h
    exact ⟨inner, inner', Or.inl hmember, hinner, rfl⟩
  · cases h
  · exact hpath

theorem set_cons_eq {inner : List (String × ValueTree β)} (hpath : path ≠ [])
    (h : member inherited members name = .own (.node false inner) ∨
      member inherited members name = .undefined ∧ inner = []) :
    set inherited members (name :: path) value =
      (set inherited inner path value).map fun inner => OrderedMap.setEntry name (.node false inner) members := by
  obtain ⟨next, path, rfl⟩ := List.exists_cons_of_ne_nil hpath
  rcases h with h | ⟨h, rfl⟩
  · rw [set, h]
    exact hpath
  · rw [set, h]
    exact hpath

/-- Whether something can be set at the end of a path does not depend on the value. -/
theorem set_isSome (h : set inherited members path value = some members') :
    ∃ members', set inherited members path value' = some members' := by
  induction path generalizing members members' with
  | nil => cases h
  | cons name path ih =>
    by_cases hpath : path = []
    · subst hpath
      exact ⟨_, rfl⟩
    · obtain ⟨inner, inner', hmember, hinner, -⟩ := set_cons hpath h
      obtain ⟨inner'', hinner⟩ := ih hinner
      exact ⟨_, by rw [set_cons_eq hpath hmember, hinner]; rfl⟩

theorem setEntry_setEntry (l : List (String × ValueTree β)) :
    OrderedMap.setEntry name value' (OrderedMap.setEntry name value l) = OrderedMap.setEntry name value' l := by
  induction l with
  | nil => simp [OrderedMap.setEntry]
  | cons e l ih =>
    by_cases h : e.1 = name
    · simp [OrderedMap.setEntry, h]
    · simp [OrderedMap.setEntry, h, ih]

/-- **What has been set is read.** -/
theorem get_set (h : set inherited members path value = some members') :
    get inherited (.own (.node false members')) path = .own value := by
  induction path generalizing members members' with
  | nil => cases h
  | cons name path ih =>
    by_cases hpath : path = []
    · subst hpath
      cases h
      rw [get, member_setEntry, if_pos rfl, get]
    · obtain ⟨inner, inner', -, hinner, rfl⟩ := set_cons hpath h
      rw [get, member_setEntry, if_pos rfl]
      exact ih hinner

/-- **The last value counts.** -/
theorem set_set (h : set inherited members path value = some members') :
    set inherited members' path value' = set inherited members path value' := by
  induction path generalizing members members' with
  | nil => cases h
  | cons name path ih =>
    by_cases hpath : path = []
    · subst hpath
      cases h
      rw [set, set, setEntry_setEntry]
    · obtain ⟨inner, inner', hmember, hinner, rfl⟩ := set_cons hpath h
      have hafter :
          member inherited (OrderedMap.setEntry name (.node false inner') members) name = .own (.node false inner') := by
        rw [member_setEntry, if_pos rfl]
      rw [set_cons_eq hpath (Or.inl hafter), set_cons_eq hpath hmember, ih hinner]
      congr 1
      funext inner
      exact setEntry_setEntry members

/-- An object that had to be made has nothing but what is inherited, apart from the way to the value. -/
theorem get_of_empty (hother : other ≠ []) :
    get inherited (.own (.node false ([] : List (String × ValueTree β)))) other = .undefined ∨
    ∃ name, other = [name] ∧ inherited name = true ∧
      get inherited (.own (.node false ([] : List (String × ValueTree β)))) other = .inherited name := by
  obtain ⟨name, rest, rfl⟩ := List.exists_cons_of_ne_nil hother
  rw [get]
  by_cases hname : inherited name = true
  · have hmember : member inherited ([] : List (String × ValueTree β)) name = .inherited name := by simp [member, hname]
    rw [hmember]
    cases rest with
    | nil => exact Or.inr ⟨name, rfl, hname, rfl⟩
    | cons next rest => exact Or.inl rfl
  · have hmember : member inherited ([] : List (String × ValueTree β)) name = .undefined := by simp [member, hname]
    rw [hmember]
    cases rest with
    | nil => exact Or.inl rfl
    | cons next rest => exact Or.inl rfl

theorem made_cons {rest : List String} : Made inherited members (name :: path) (name :: rest) ↔
    ∃ way last, rest = way ++ [last] ∧ way <+: path ∧ get inherited (member inherited members name) way = .undefined ∧
      inherited last = true := by
  constructor
  · rintro ⟨way, last, hother, hway, hbegins, hget, hlast⟩
    obtain ⟨first, way, rfl⟩ := List.exists_cons_of_ne_nil hway
    obtain ⟨rfl, htail⟩ := List.cons_prefix_cons.mp hbegins
    exact ⟨way, last, (List.cons.inj hother).2, htail, hget, hlast⟩
  · rintro ⟨way, last, rfl, hbegins, hget, hlast⟩
    exact ⟨name :: way, last, rfl, by simp, List.cons_prefix_cons.mpr ⟨rfl, hbegins⟩, hget, hlast⟩

theorem not_made_of_ne {name' : String} {rest : List String} (h : name' ≠ name) :
    ¬Made inherited members (name :: path) (name' :: rest) := by
  rintro ⟨way, last, hother, hway, hbegins, -, -⟩
  obtain ⟨first, way, rfl⟩ := List.exists_cons_of_ne_nil hway
  obtain ⟨rfl, -⟩ := List.cons_prefix_cons.mp hbegins
  exact h (List.cons.inj hother).1

/-- What the paths of an object that had to be made lead to. -/
theorem made_of_empty {inner' : List (String × ValueTree β)} {way : List String} {last : String}
    (hinner : set inherited [] path value = some inner')
    (hnot : ¬path <+: way ++ [last]) (hway : way ≠ []) (hbegins : way <+: path) (hlast : inherited last = true) :
    Made inherited ([] : List (String × ValueTree β)) path (way ++ [last]) := by
  refine ⟨way, last, rfl, hway, hbegins, ?_, hlast⟩
  rcases @get_of_empty β inherited _ hway with hget | ⟨name, rfl, hname, -⟩
  · exact hget
  · -- the way does not lead through what is inherited, since the value could be set
    obtain ⟨rest, rfl⟩ := hbegins
    rw [List.singleton_append] at hinner
    by_cases hrest : rest = []
    · subst hrest
      exact absurd (List.prefix_append _ _) hnot
    · obtain ⟨inner, -, hmember, -⟩ := set_cons hrest hinner
      simp [member, hname] at hmember

/-- **Another path leads to what it led to**, unless it ends at an inherited name of an object that had to be made. -/
theorem get_set_other (h : set inherited members path value = some members') (hnot : ¬path <+: other)
    (hnot' : ¬other <+: path) :
    (¬Made inherited members path other →
      get inherited (.own (.node false members')) other = get inherited (.own (.node false members)) other) ∧
      (Made inherited members path other → get inherited (.own (.node false members)) other = .undefined ∧
        ∃ name, get inherited (.own (.node false members')) other = .inherited name) := by
  induction path generalizing members members' other with
  | nil => cases h
  | cons name path ih =>
    obtain ⟨name', rest, rfl⟩ :=
      List.exists_cons_of_ne_nil (show other ≠ [] from fun hnil => hnot' (hnil ▸ List.nil_prefix))
    by_cases hname : name' = name
    · subst hname
      have hpath : path ≠ [] := by
        rintro rfl
        exact hnot (List.cons_prefix_cons.mpr ⟨rfl, List.nil_prefix⟩)
      have hrest : ¬path <+: rest := fun hbegins => hnot (List.cons_prefix_cons.mpr ⟨rfl, hbegins⟩)
      have hrest' : ¬rest <+: path := fun hbegins => hnot' (List.cons_prefix_cons.mpr ⟨rfl, hbegins⟩)
      have hnonempty : rest ≠ [] := fun hnil => hrest' (hnil ▸ List.nil_prefix)
      obtain ⟨inner, inner', hmember, hinner, rfl⟩ := set_cons hpath h
      obtain ⟨hsame, hmade⟩ := ih hinner hrest hrest'
      rw [get, get, member_setEntry, if_pos rfl, made_cons]
      rcases hmember with hmember | ⟨hmember, rfl⟩
      · rw [hmember]
        have hiff :
          (∃ way last, rest = way ++ [last] ∧ way <+: path ∧ get inherited (.own (.node false inner)) way = .undefined ∧
            inherited last = true) ↔ Made inherited inner path rest := by
          constructor
          · rintro ⟨way, last, hother, hbegins, hget, hlast⟩
            refine ⟨way, last, hother, ?_, hbegins, hget, hlast⟩
            rintro rfl
            cases hget
          · rintro ⟨way, last, hother, -, hbegins, hget, hlast⟩
            exact ⟨way, last, hother, hbegins, hget, hlast⟩
        rw [hiff]
        exact ⟨hsame, hmade⟩
      · rw [hmember, get_undefined hnonempty]
        constructor
        · intro hnotMade
          have hinnerNot : ¬Made inherited ([] : List (String × ValueTree β)) path rest := by
            rintro ⟨way, last, rfl, hway, hbegins, -, hlast⟩
            exact hnotMade ⟨way, last, rfl, hbegins, get_undefined hway, hlast⟩
          rw [hsame hinnerNot]
          rcases @get_of_empty β inherited _ hnonempty with hget | ⟨last, rfl, hlast, -⟩
          · exact hget
          · exact absurd ⟨[], last, rfl, List.nil_prefix, rfl, hlast⟩ hnotMade
        · rintro ⟨way, last, rfl, hbegins, -, hlast⟩
          refine ⟨rfl, ?_⟩
          by_cases hway : way = []
          · subst hway
            have hinnerNot : ¬Made inherited ([] : List (String × ValueTree β)) path [last] := by
              rintro ⟨way, name, hother, hway, -⟩
              cases way with
              | nil => exact hway rfl
              | cons first way => simp at hother
            refine ⟨last, ?_⟩
            refine (hsame hinnerNot).trans ?_
            simp [member, hlast, get]
          · exact (hmade (made_of_empty hinner hrest hway hbegins hlast)).2
    · have hmember : member inherited members' name' = member inherited members name' := by
        by_cases hpath : path = []
        · subst hpath
          cases h
          rw [member_setEntry, if_neg hname]
        · obtain ⟨inner, inner', -, -, rfl⟩ := set_cons hpath h
          rw [member_setEntry, if_neg hname]
      rw [get, get, hmember]
      exact ⟨fun _ => rfl, fun hmade => absurd hmade (not_made_of_ne hname)⟩

end ObjectTree
