import AdWiki.Lib.ObjectTree

/-!
# Objects on a heap

Objects and arrays are cells of a heap, and a value is a leaf or the address of a cell. `Shows` says that a value stands
for a tree, with cells of a set that is left at every step into an object, so that no object is part of itself.

* `Shows.frame`: what is written outside of its cells does not change what a value stands for.
* `Shows.clone`: the copy of a value stands for the same.
* `FoundShows.walk`: what a path leads to on the heap is what it leads to in the tree.
* `descend_spec`: the loop that copies the objects on a way, with a value set at its end, is `ObjectTree.set`.
* `descend_clone_spec`: the same in a copy of an object; the cells that were there stay as they are.
-/

namespace ObjectHeap

open ObjectTree (ValueTree Found)

inductive Value (β : Type)
  | leaf (value : β)
  | ref (address : Nat)
  deriving DecidableEq

structure Cell (β : Type) where
  isArray : Bool
  members : List (String × Value β)
  deriving DecidableEq

abbrev Heap (β : Type) := List (Cell β)

variable {β : Type}

/-! ## Trees of values -/

mutual

/-- The value stands for the tree, with cells that `ok` allows. -/
def Shows (heap : Heap β) (ok : Nat → Prop) (value : Value β) : ValueTree β → Prop
  | .leaf b => value = .leaf b
  | .node isArray members =>
    ∃ address values, value = .ref address ∧ ok address ∧ heap[address]? = some ⟨isArray, values⟩ ∧
      ShowsMembers heap (fun x => ok x ∧ x ≠ address) values members

def ShowsMembers (heap : Heap β) (ok : Nat → Prop) (values : List (String × Value β)) : List (String × ValueTree β) → Prop
  | [] => values = []
  | (name, tree) :: members =>
    ∃ value rest, values = (name, value) :: rest ∧ Shows heap ok value tree ∧ ShowsMembers heap ok rest members

end

variable {heap heap' : Heap β} {ok ok' : Nat → Prop} {value : Value β} {values : List (String × Value β)}
  {tree : ValueTree β}
  {members : List (String × ValueTree β)} {name : String} {address : Nat}

mutual

theorem Shows.frame : ∀ {ok ok' : Nat → Prop} {value : Value β} {tree : ValueTree β},
    (∀ x, ok x → ok' x ∧ heap'[x]? = heap[x]?) → Shows heap ok value tree → Shows heap' ok' value tree
  | _, _, _, .leaf b, _, h => by
    rw [Shows] at h ⊢
    exact h
  | _, _, _, .node isArray members, hok, h => by
    rw [Shows] at h ⊢
    obtain ⟨address, values, rfl, haddress, hcell, hmembers⟩ := h
    exact ⟨address, values, rfl, (hok address haddress).1, (hok address haddress).2.trans hcell,
      ShowsMembers.frame (fun x hx => ⟨⟨(hok x hx.1).1, hx.2⟩, (hok x hx.1).2⟩) hmembers⟩

/-- What stands for a tree still does on a heap that has the same cells there. -/
theorem ShowsMembers.frame :
    ∀ {ok ok' : Nat → Prop} {values : List (String × Value β)} {members : List (String × ValueTree β)},
    (∀ x, ok x → ok' x ∧ heap'[x]? = heap[x]?) → ShowsMembers heap ok values members →
      ShowsMembers heap' ok' values members
  | _, _, _, [], _, h => by
    rw [ShowsMembers] at h ⊢
    exact h
  | _, _, _, (name, tree) :: members, hok, h => by
    rw [ShowsMembers] at h ⊢
    obtain ⟨value, rest, rfl, hvalue, hrest⟩ := h
    exact ⟨value, rest, rfl, Shows.frame hok hvalue, ShowsMembers.frame hok hrest⟩

end

mutual

theorem Shows.unique : ∀ {ok ok' : Nat → Prop} {value : Value β} {tree tree' : ValueTree β}, Shows heap ok value tree →
    Shows heap ok' value tree' → tree = tree'
  | _, _, _, .leaf b, .leaf b', h, h' => by
    rw [Shows] at h
    rw [Shows] at h'
    cases h.symm.trans h'
    rfl
  | _, _, _, .leaf b, .node _ _, h, h' => by
    rw [Shows] at h
    rw [Shows] at h'
    obtain ⟨address, values, hvalue, -⟩ := h'
    cases h.symm.trans hvalue
  | _, _, _, .node _ _, .leaf b, h, h' => by
    rw [Shows] at h
    rw [Shows] at h'
    obtain ⟨address, values, hvalue, -⟩ := h
    cases h'.symm.trans hvalue
  | _, _, _, .node isArray members, .node isArray' members', h, h' => by
    rw [Shows] at h
    rw [Shows] at h'
    obtain ⟨address, values, rfl, -, hcell, hmembers⟩ := h
    obtain ⟨address', values', hvalue, -, hcell', hmembers'⟩ := h'
    cases hvalue
    cases hcell.symm.trans hcell'
    rw [ShowsMembers.unique hmembers hmembers']

/-- A value stands for one tree. -/
theorem ShowsMembers.unique :
    ∀ {ok ok' : Nat → Prop} {values : List (String × Value β)} {members members' : List (String × ValueTree β)},
    ShowsMembers heap ok values members → ShowsMembers heap ok' values members' → members = members'
  | _, _, _, [], [], _, _ => rfl
  | _, _, _, [], _ :: _, h, h' => by
    rw [ShowsMembers] at h
    rw [ShowsMembers] at h'
    obtain ⟨value, rest, hvalues, -⟩ := h'
    cases h.symm.trans hvalues
  | _, _, _, _ :: _, [], h, h' => by
    rw [ShowsMembers] at h
    rw [ShowsMembers] at h'
    obtain ⟨value, rest, hvalues, -⟩ := h
    cases h'.symm.trans hvalues
  | _, _, _, (name, tree) :: members, (name', tree') :: members', h, h' => by
    rw [ShowsMembers] at h
    rw [ShowsMembers] at h'
    obtain ⟨value, rest, rfl, hvalue, hrest⟩ := h
    obtain ⟨value', rest', hvalues, hvalue', hrest'⟩ := h'
    cases hvalues
    rw [Shows.unique hvalue hvalue', ShowsMembers.unique hrest hrest']

end

/-! ## Members -/

theorem ShowsMembers.lookup (h : ShowsMembers heap ok values members) (name : String) :
    (values.lookup name = none ∧ members.lookup name = none) ∨
      ∃ value tree, values.lookup name = some value ∧ members.lookup name = some tree ∧ Shows heap ok value tree := by
  induction members generalizing values with
  | nil =>
    rw [ShowsMembers] at h
    subst h
    exact Or.inl ⟨rfl, rfl⟩
  | cons member members ih =>
    obtain ⟨first, tree⟩ := member
    rw [ShowsMembers] at h
    obtain ⟨value, rest, rfl, hvalue, hrest⟩ := h
    rw [OrderedMap.lookup_cons_if, OrderedMap.lookup_cons_if]
    by_cases hname : name = first
    · rw [if_pos hname, if_pos hname]
      exact Or.inr ⟨value, tree, rfl, rfl, hvalue⟩
    · rw [if_neg hname, if_neg hname]
      exact ih hrest

theorem ShowsMembers.setEntry (h : ShowsMembers heap ok values members) (hvalue : Shows heap ok value tree) :
    ShowsMembers heap ok (OrderedMap.setEntry name value values) (OrderedMap.setEntry name tree members) := by
  induction members generalizing values with
  | nil =>
    rw [ShowsMembers] at h
    subst h
    rw [OrderedMap.setEntry, OrderedMap.setEntry, ShowsMembers]
    exact ⟨value, [], rfl, hvalue, by rw [ShowsMembers]⟩
  | cons member members ih =>
    obtain ⟨first, tree'⟩ := member
    rw [ShowsMembers] at h
    obtain ⟨value', rest, rfl, hvalue', hrest⟩ := h
    rw [OrderedMap.setEntry, OrderedMap.setEntry]
    by_cases hname : first = name
    · rw [if_pos hname, if_pos hname, ShowsMembers]
      exact ⟨value, rest, rfl, hvalue, hrest⟩
    · rw [if_neg hname, if_neg hname, ShowsMembers]
      exact ⟨value', _, rfl, hvalue', ih hrest⟩

/-! ## Copies -/

def Value.shift (n : Nat) : Value β → Value β
  | .leaf b => .leaf b
  | .ref address => .ref (address + n)

def Cell.shift (n : Nat) (cell : Cell β) : Cell β := { cell with members := cell.members.map fun e => (e.1, e.2.shift n) }

/-- The heap with a copy of each of its cells. -/
def clone (heap : Heap β) : Heap β := heap ++ heap.map (Cell.shift heap.length)

theorem getElem?_clone_lt {x : Nat} (h : x < heap.length) : (clone heap)[x]? = heap[x]? := List.getElem?_append_left h

theorem getElem?_clone_add (x : Nat) : (clone heap)[x + heap.length]? = heap[x]?.map (Cell.shift heap.length) := by
  rw [clone, List.getElem?_append_right (by omega), Nat.add_sub_cancel, List.getElem?_map]

mutual

theorem Shows.clone : ∀ {ok : Nat → Prop} {value : Value β} {tree : ValueTree β}, Shows heap ok value tree →
    Shows (clone heap) (fun x => ∃ y, ok y ∧ x = y + heap.length) (value.shift heap.length) tree
  | _, _, .leaf b, h => by
    rw [Shows] at h ⊢
    rw [h]
    rfl
  | _, _, .node isArray members, h => by
    rw [Shows] at h ⊢
    obtain ⟨address, values, rfl, haddress, hcell, hmembers⟩ := h
    refine ⟨address + heap.length, _, rfl, ⟨address, haddress, rfl⟩, by rw [getElem?_clone_add, hcell]; rfl, ?_⟩
    refine (ShowsMembers.clone hmembers).frame fun x hx => ⟨?_, rfl⟩
    obtain ⟨y, ⟨hy, hne⟩, rfl⟩ := hx
    exact ⟨⟨y, hy, rfl⟩, by omega⟩

/-- The copy of a value stands for the same. -/
theorem ShowsMembers.clone :
    ∀ {ok : Nat → Prop} {values : List (String × Value β)} {members : List (String × ValueTree β)},
    ShowsMembers heap ok values members →
      ShowsMembers (clone heap) (fun x => ∃ y, ok y ∧ x = y + heap.length)
        (values.map fun e => (e.1, e.2.shift heap.length)) members
  | _, _, [], h => by
    rw [ShowsMembers] at h ⊢
    rw [h]
    rfl
  | _, _, (name, tree) :: members, h => by
    rw [ShowsMembers] at h ⊢
    obtain ⟨value, rest, rfl, hvalue, hrest⟩ := h
    exact ⟨_, _, rfl, Shows.clone hvalue, ShowsMembers.clone hrest⟩

end

/-! ## Ways -/

section Ways

variable (inherited : String → Bool)

/-- The members of what is found, if it is an object and no array. -/
def objectAt (heap : Heap β) : Found (Value β) → Option (List (String × Value β))
  | .own (.ref address) =>
    match heap[address]? with
    | some ⟨false, members⟩ => some members
    | _ => none
  | _ => none

/-- What a path leads to. -/
def walk (heap : Heap β) : Found (Value β) → List String → Found (Value β)
  | found, [] => found
  | found, name :: path =>
    match objectAt heap found with
    | some members => walk heap (ObjectTree.member inherited members name) path
    | none => .undefined

/-- The members of the object that is found, and none where nothing is found. -/
def spread (heap : Heap β) : Found (Value β) → Option (List (String × Value β))
  | .undefined => some []
  | found => objectAt heap found

def setMember (heap : Heap β) (target : Nat) (name : String) (value : Value β) : Heap β :=
  heap.modify target fun cell => { cell with members := OrderedMap.setEntry name value cell.members }

/-- Puts a copy of the object under each name of the way in its place; an object that is missing is made. -/
def descend (heap : Heap β) (target : Nat) : List String → Option (Heap β × Nat)
  | [] => some (heap, target)
  | name :: way =>
    match heap[target]? with
    | some cell =>
      match spread heap (ObjectTree.member inherited cell.members name) with
      | some next => descend (setMember (heap ++ [⟨false, next⟩]) target name (.ref heap.length)) heap.length way
      | none => none
    | none => none

end Ways

variable {inherited : String → Bool} {found : Found (Value β)} {found' : Found (ValueTree β)} {path way : List String}

/-- What is found stands for what is found in the tree. -/
inductive FoundShows (heap : Heap β) (ok : Nat → Prop) : Found (Value β) → Found (ValueTree β) → Prop
  | undefined : FoundShows heap ok .undefined .undefined
  | inherited (name : String) : FoundShows heap ok (.inherited name) (.inherited name)
  | own {value : Value β} {tree : ValueTree β} (h : Shows heap ok value tree) : FoundShows heap ok
      (.own value) (.own tree)

theorem ShowsMembers.member (h : ShowsMembers heap ok values members) (name : String) :
    FoundShows heap ok (ObjectTree.member inherited values name) (ObjectTree.member inherited members name) := by
  unfold ObjectTree.member
  rcases h.lookup name with ⟨hvalue, htree⟩ | ⟨value, tree, hvalue, htree, hshows⟩
  · rw [hvalue, htree]
    by_cases hname : inherited name = true
    · simp only [hname, if_true]
      exact .inherited name
    · simp only [hname, Bool.false_eq_true, if_false]
      exact .undefined
  · rw [hvalue, htree]
    exact .own hshows

/-- What is an object in the tree is one on the heap, and nothing else is. -/
theorem FoundShows.objectAt (h : FoundShows heap ok found found') :
    (∃ next inner, objectAt heap found = some next ∧ ShowsMembers heap ok next inner ∧
      found' = .own (.node false inner)) ∨
      objectAt heap found = none ∧ ∀ inner, found' ≠ .own (.node false inner) := by
  cases h with
  | undefined => exact Or.inr ⟨rfl, by simp⟩
  | inherited other => exact Or.inr ⟨rfl, by simp⟩
  | @own value tree h =>
    cases tree with
    | leaf b =>
      rw [Shows] at h
      subst h
      exact Or.inr ⟨rfl, by simp⟩
    | node isArray members =>
      rw [Shows] at h
      obtain ⟨address, values, rfl, -, hcell, hmembers⟩ := h
      rw [ObjectHeap.objectAt, hcell]
      cases isArray with
      | true => exact Or.inr ⟨rfl, by simp⟩
      | false => exact Or.inl ⟨values, members, rfl, hmembers.frame fun x hx => ⟨hx.1, rfl⟩, rfl⟩

theorem FoundShows.walk (h : FoundShows heap ok found found') (path : List String) :
    FoundShows heap ok (walk inherited heap found path) (ObjectTree.get inherited found' path) := by
  induction path generalizing found found' with
  | nil =>
    rw [ObjectHeap.walk, ObjectTree.get]
    exact h
  | cons name path ih =>
    rw [ObjectHeap.walk]
    rcases h.objectAt with ⟨next, inner, hnext, hinner, rfl⟩ | ⟨hnone, hnot⟩
    · rw [hnext, ObjectTree.get]
      exact ih (hinner.member name)
    · rw [hnone, ObjectTree.get_of_not_object hnot]
      exact .undefined

@[simp] theorem length_setMember {target : Nat} : (setMember heap target name value).length = heap.length := by
  rw [setMember, List.length_modify]

theorem getElem?_setMember_ne {target x : Nat} (h : x ≠ target) : (setMember heap target name value)[x]? = heap[x]? := by
  rw [setMember, List.getElem?_modify_ne _ _ (Ne.symm h)]

theorem getElem?_setMember_self {target : Nat} {isArray : Bool} (h : heap[target]? = some ⟨isArray, values⟩) :
    (setMember heap target name value)[target]? = some ⟨isArray, OrderedMap.setEntry name value values⟩ := by
  rw [setMember, List.getElem?_modify_eq, h]
  rfl

theorem FoundShows.eq_undefined_iff (h : FoundShows heap ok found found') : found = .undefined ↔ found' = .undefined := by
  cases h with
  | undefined => exact ⟨fun _ => rfl, fun _ => rfl⟩
  | inherited name => simp
  | own h => simp

theorem FoundShows.eq_inherited_iff (h : FoundShows heap ok found found') (name : String) :
    found = .inherited name ↔ found' = .inherited name := by
  cases h with
  | undefined => simp
  | inherited name => simp
  | own h => simp

theorem FoundShows.spread (h : FoundShows heap ok found found') :
    (∃ next inner, spread heap found = some next ∧ ShowsMembers heap ok next inner ∧
      (found' = .own (.node false inner) ∨ found' = .undefined ∧ inner = [])) ∨
    spread heap found = none ∧ found' ≠ .undefined ∧ ∀ inner, found' ≠ .own (.node false inner) := by
  cases h with
  | undefined => exact Or.inl ⟨[], [], rfl, by rw [ShowsMembers], Or.inr ⟨rfl, rfl⟩⟩
  | inherited other => exact Or.inr ⟨rfl, by simp, by simp⟩
  | own h =>
    rcases (FoundShows.own h).objectAt with ⟨next, inner, hnext, hinner, hfound⟩ | ⟨hnone, hnot⟩
    · exact Or.inl ⟨next, inner, hnext, hinner, Or.inl hfound⟩
    · exact Or.inr ⟨hnone, by simp, hnot⟩

/-- An object with the tree that it stands for. -/
structure Object (heap : Heap β) where
  address : Nat
  members : List (String × ValueTree β)
  shows : Shows heap (· < heap.length) (.ref address) (.node false members)

/-- A value with the tree that it stands for. -/
structure HeldValue (heap : Heap β) where
  value : Value β
  tree : ValueTree β
  shows : Shows heap (· < heap.length) value tree

/-- What is found here and what is found there stand for the same. -/
def Same (heap : Heap β) (found : Found (Value β)) (heap' : Heap β) (found' : Found (Value β)) : Prop :=
  ∃ tree, FoundShows heap (· < heap.length) found tree ∧ FoundShows heap' (· < heap'.length) found' tree

/-! ## The loop -/

/-- The cells after the loop, with a value set at its end: the value is read there, and the old cells are as they were. -/
structure Assigned (inherited : String → Bool) (heap : Heap β) (target : Nat) (ok : Nat → Prop) (path : List String)
    (value : Value β) (heap' : Heap β) (members' : List (String × ValueTree β)) : Prop where
  length_le : heap.length ≤ heap'.length
  same : ∀ x < heap.length, x ≠ target → heap'[x]? = heap[x]?
  read : walk inherited heap' (.own (.ref target)) path = .own value
  shows : ∃ values', heap'[target]? = some ⟨false, values'⟩ ∧
    ShowsMembers heap' (fun x => (ok x ∨ heap.length ≤ x) ∧ x < heap'.length) values' members'

/-- A member set in the target. -/
theorem assigned_setMember {target : Nat} {value : Value β} {tree : ValueTree β}
    (hcell : heap[target]? = some ⟨false, values⟩)
    (hok : ∀ x, ok x → x < heap.length ∧ x ≠ target) (hmembers : ShowsMembers heap ok values members)
    (hvalue : Shows heap ok value tree) :
    Assigned inherited heap target ok [name] value (setMember heap target name value)
      (OrderedMap.setEntry name tree members) := by
  refine ⟨by simp, fun x _ hne => getElem?_setMember_ne hne, ?_, _, getElem?_setMember_self hcell, ?_⟩
  · rw [walk, objectAt, getElem?_setMember_self hcell]
    exact (congrArg (walk inherited _ · []) (ObjectTree.member_setEntry_self _)).trans (by rw [walk])
  have hframe : ∀ x, ok x → ((ok x ∨ heap.length ≤ x) ∧ x < (setMember heap target name value).length) ∧
      (setMember heap target name value)[x]? = heap[x]? := fun x hx =>
    ⟨⟨Or.inl hx, by simpa using (hok x hx).1⟩, getElem?_setMember_ne (hok x hx).2⟩
  exact (hmembers.frame hframe).setEntry (hvalue.frame hframe)

/-- A member that is set to a new object, and what the rest of the loop does in that object. -/
theorem Assigned.step {target : Nat} {next : List (String × Value β)} {heap'' : Heap β}
    {inner' : List (String × ValueTree β)} {value : Value β}
    (hcell : heap[target]? = some ⟨false, values⟩) (hok : ∀ x, ok x → x < heap.length ∧ x ≠ target)
    (hmembers : ShowsMembers heap ok values members)
    (h : Assigned inherited (setMember (heap ++ [⟨false, next⟩]) target name (.ref heap.length)) heap.length ok path value
      heap'' inner') :
    Assigned inherited heap target ok (name :: path) value heap''
      (OrderedMap.setEntry name (.node false inner') members) := by
  have htarget : target < heap.length := (List.getElem?_eq_some_iff.mp hcell).1
  obtain ⟨hlength, hsame, hread, values', hvalues', hinner'⟩ := h
  rw [length_setMember, List.length_append, List.length_singleton] at hlength
  have hold : ∀ x < heap.length, x ≠ target → heap''[x]? = heap[x]? := by
    intro x hx hne
    rw [hsame x (by rw [length_setMember, List.length_append, List.length_singleton]; omega) (by omega),
      getElem?_setMember_ne hne, List.getElem?_append_left hx]
  have hnew : heap''[target]? = some ⟨false, OrderedMap.setEntry name (.ref heap.length) values⟩ := by
    rw [hsame target (by rw [length_setMember, List.length_append, List.length_singleton]; omega) (by omega)]
    exact getElem?_setMember_self (by rw [List.getElem?_append_left htarget, hcell])
  refine ⟨by omega, hold, ?_, _, hnew, ?_⟩
  · rw [walk, objectAt, hnew]
    exact (congrArg (walk inherited _ · path) (ObjectTree.member_setEntry_self _)).trans hread
  have hframe : ∀ x, ok x → ((ok x ∨ heap.length ≤ x) ∧ x < heap''.length) ∧ heap''[x]? = heap[x]? := fun x hx =>
    ⟨⟨Or.inl hx, by have hlt := (hok x hx).1; omega⟩, hold x (hok x hx).1 (hok x hx).2⟩
  refine (hmembers.frame hframe).setEntry ?_
  rw [Shows]
  refine ⟨heap.length, values', rfl, ⟨Or.inr (Nat.le_refl _), by omega⟩, hvalues', hinner'.frame fun x hx => ⟨?_, rfl⟩⟩
  rw [length_setMember, List.length_append, List.length_singleton] at hx
  obtain ⟨hx | hx, hlt⟩ := hx
  · exact ⟨⟨Or.inl hx, hlt⟩, Nat.ne_of_lt (hok x hx).1⟩
  · exact ⟨⟨Or.inr (by omega), hlt⟩, by omega⟩

/-- **The loop and the assignment after it set the value at the end of the path**, where the tree allows it. -/
theorem descend_spec {target : Nat} {value : Value β} {tree : ValueTree β} {last : String}
    (hcell : heap[target]? = some ⟨false, values⟩)
    (hok : ∀ x, ok x → x < heap.length ∧ x ≠ target) (hmembers : ShowsMembers heap ok values members)
    (hvalue : Shows heap ok value tree) :
    (descend inherited heap target way = none ∧ ObjectTree.set inherited members (way ++ [last]) tree = none) ∨
      ∃ heap' target' members', descend inherited heap target way = some (heap', target') ∧
        ObjectTree.set inherited members (way ++ [last]) tree = some members' ∧
        Assigned inherited heap target ok (way ++ [last]) value (setMember heap' target' last value) members' := by
  induction way generalizing heap target values members with
  | nil => exact Or.inr ⟨heap, target, _, rfl, rfl, assigned_setMember hcell hok hmembers hvalue⟩
  | cons name way ih =>
    have hpath : way ++ [last] ≠ [] := by simp
    have htarget : target < heap.length := (List.getElem?_eq_some_iff.mp hcell).1
    rw [descend, hcell, List.cons_append]
    rcases (@ShowsMembers.member _ _ _ _ _ inherited hmembers name).spread with ⟨next, inner, hnext, hinner, hfound⟩ |
      ⟨hnext, hundefined, hobject⟩
    · simp only [hnext]
      rw [ObjectTree.set_cons_eq hpath hfound]
      have hframe :
          ∀ x, ok x → ok x ∧ (setMember (heap ++ [⟨false, next⟩]) target name (.ref heap.length))[x]? = heap[x]? :=
        fun x hx => ⟨hx, by rw [getElem?_setMember_ne (hok x hx).2, List.getElem?_append_left (hok x hx).1]⟩
      have hcell' :
          (setMember (heap ++ [⟨false, next⟩]) target name (.ref heap.length))[heap.length]? = some ⟨false, next⟩ := by
        rw [getElem?_setMember_ne (Nat.ne_of_gt htarget), List.getElem?_append_right (Nat.le_refl _), Nat.sub_self]
        rfl
      have hok' : ∀ x, ok x → x < (setMember (heap ++ [⟨false, next⟩]) target name (.ref heap.length)).length ∧ x ≠
          heap.length := by
        intro x hx
        rw [length_setMember, List.length_append, List.length_singleton]
        have hlt := (hok x hx).1
        exact ⟨by omega, by omega⟩
      rcases ih hcell' hok' (hinner.frame hframe) (hvalue.frame hframe) with ⟨hnone, hset⟩ |
        ⟨heap', target', inner', hsome, hset, h⟩
      · exact Or.inl ⟨hnone, by rw [hset]; rfl⟩
      · exact Or.inr ⟨heap', target', _, hsome, by rw [hset]; rfl, Assigned.step hcell hok hmembers h⟩
    · refine Or.inl ⟨by simp only [hnext], ?_⟩
      cases hset : ObjectTree.set inherited members (name :: (way ++ [last])) tree with
      | none => rfl
      | some members' =>
        obtain ⟨inner, -, hmember | ⟨hmember, -⟩, -⟩ := ObjectTree.set_cons hpath hset
        · exact absurd hmember (hobject inner)
        · exact absurd hmember hundefined

/-- The cells after the loop in a copy of an object. -/
structure Copied (inherited : String → Bool) (heap : Heap β) (path : List String) (value : Value β) (heap' : Heap β)
    (result : Nat) (members' : List (String × ValueTree β)) : Prop where
  length_le : heap.length ≤ heap'.length
  same : ∀ x < heap.length, heap'[x]? = heap[x]?
  read : walk inherited heap' (.own (.ref result)) path = .own value
  shows : Shows heap' (· < heap'.length) (.ref result) (.node false members')

theorem descend_clone_spec (object : Object heap) (value : HeldValue heap) (last : String) :
    (descend inherited (clone heap) (object.address + heap.length) way = none ∧
        ObjectTree.set inherited object.members (way ++ [last]) value.tree = none) ∨
      ∃ heap' target' members', descend inherited (clone heap) (object.address + heap.length) way =
        some (heap', target') ∧
        ObjectTree.set inherited object.members (way ++ [last]) value.tree = some members' ∧
        Copied inherited heap (way ++ [last]) value.value (setMember heap' target' last value.value)
          (object.address + heap.length) members' := by
  have hlength : (clone heap).length = heap.length + heap.length := by rw [clone, List.length_append, List.length_map]
  have hobject := Shows.clone object.shows
  rw [Shows] at hobject
  obtain ⟨target, values, htarget, hrange, hcell, hmembers⟩ := hobject
  cases htarget
  -- the loop works on the copy, and the value is one of the cells before it
  have hok : ∀ x, ((∃ y, y < heap.length ∧ x = y + heap.length) ∧ x ≠ object.address + heap.length) ∨ x < heap.length →
      x < (clone heap).length ∧ x ≠ object.address + heap.length := by
    rintro x (⟨⟨y, hy, rfl⟩, hne⟩ | hx)
    · exact ⟨by omega, hne⟩
    · exact ⟨by omega, by omega⟩
  rcases @descend_spec _ _ _ _ _ inherited way _ _ _ last hcell hok (hmembers.frame fun x hx => ⟨Or.inl hx, rfl⟩)
    (value.shows.frame fun x hx => ⟨Or.inr hx, getElem?_clone_lt hx⟩) with h | ⟨heap', target', members',
      hdescend, hset, h⟩
  · exact Or.inl h
  · refine Or.inr ⟨heap', target', members', hdescend, hset, by have := h.length_le; omega, fun x hx => ?_, h.read, ?_⟩
    · rw [h.same x (by omega) (by omega), getElem?_clone_lt hx]
    · obtain ⟨values', hvalues', hmembers'⟩ := h.shows
      rw [Shows]
      refine ⟨_, values', rfl, (List.getElem?_eq_some_iff.mp hvalues').1, hvalues', hmembers'.frame fun x hx =>
        ⟨⟨hx.2, ?_⟩, rfl⟩⟩
      rcases hx.1 with hx' | hx'
      · exact (hok x hx').2
      · have hlt := (List.getElem?_eq_some_iff.mp hcell).1
        omega

end ObjectHeap
