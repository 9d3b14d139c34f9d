import AdWiki.Common.Path
import AdWiki.Lib.ObjectHeap

/-!
# Paths into a provider's claims

The groups that the directory service reports are written into a copy of the claims, at the path under which the
synchronisation looks for groups afterwards. The writing and the reading walk are two functions of two services.

* `claimAtPath_eq`, `setClaimAtPath_eq`: both walks, on the heap, for a path without refused segments.
* `setClaimAtPath_spec`: the claims after a success, as a tree.
* `setClaimAtPath_lens`: what is read after a success, at this path and at others, and what a second success does.
-/

namespace AdWiki.Sso.ClaimPaths

open ObjectHeap
open ObjectTree (Found ValueTree)

inductive EntraGroupResolutionError
  | graphClaimConfigurationInvalid
  deriving DecidableEq, Repr

def EntraGroupResolutionError.code : EntraGroupResolutionError → String
  | .graphClaimConfigurationInvalid => "graph_claim_configuration_invalid"

/-- The segments that both walks refuse. -/
def refused (segment : String) : Bool :=
  segment = "" || segment = "__proto__" || segment = "prototype" || segment = "constructor"

/-- The names that every object inherits, less those that are refused. -/
def inheritedNames : List String :=
  ["toString", "toLocaleString", "valueOf", "hasOwnProperty", "isPrototypeOf", "propertyIsEnumerable", "__defineGetter__",
    "__defineSetter__", "__lookupGetter__", "__lookupSetter__"]

def inherited (name : String) : Bool := inheritedNames.contains name

variable {β : Type}

/-- The loop of `claimAtPath`. -/
def claimAt (heap : Heap β) (current : Found (Value β)) : List String → Found (Value β)
  | [] => current
  | segment :: path =>
    if refused segment then .undefined
    else
      match objectAt heap current with
      | some members => claimAt heap (ObjectTree.member inherited members segment) path
      | none => .undefined

def claimAtPath (heap : Heap β) (claims : Nat) (path : String) : Found (Value β) :=
  claimAt heap (.own (.ref claims)) (Js.split '.' path)

/-- The copy of an object. What the object does not reach is copied with it, and nothing leads there. -/
def structuredClone (heap : Heap β) (claims : Nat) : Heap β × Nat := (clone heap, claims + heap.length)

def setClaimAtPath (heap : Heap β) (claims : Nat) (path : String) (value : Value β) :
    Except EntraGroupResolutionError (Heap β × Nat) :=
  let segments := Js.split '.' path
  if segments.any refused then .error .graphClaimConfigurationInvalid
  else
    let (heap, result) := structuredClone heap claims
    match descend inherited heap result segments.dropLast with
    | none => .error .graphClaimConfigurationInvalid
    | some (heap, target) =>
      match segments.getLast? with
      | none => .error .graphClaimConfigurationInvalid
      | some finalSegment =>
        if finalSegment = "" then .error .graphClaimConfigurationInvalid
        else .ok (setMember heap target finalSegment value, result)

variable {heap heap' : Heap β} {claims result : Nat} {path other : String} {value : Value β} {segments : List String}
  {current : Found (Value β)}

theorem claimAt_eq (h : ∀ segment ∈ segments, refused segment = false) :
    claimAt heap current segments = walk inherited heap current segments := by
  induction segments generalizing current with
  | nil => rw [claimAt, walk]
  | cons segment segments ih =>
    rw [claimAt, walk, if_neg (by rw [h segment List.mem_cons_self]; simp)]
    cases objectAt heap current with
    | none => rfl
    | some members => exact ih fun s hs => h s (List.mem_cons_of_mem _ hs)

theorem claimAt_refused {segment : String} (hmem : segment ∈ segments) (h : refused segment = true) :
    claimAt heap current segments = .undefined := by
  induction segments generalizing current with
  | nil => cases hmem
  | cons first segments ih =>
    rw [claimAt]
    by_cases hfirst : refused first = true
    · rw [if_pos hfirst]
    · rw [if_neg hfirst]
      cases objectAt heap current with
      | none => rfl
      | some members =>
        rcases List.mem_cons.mp hmem with rfl | hrest
        · exact absurd h hfirst
        · exact ih hrest

/-- A success: no segment is refused, and the loop runs through all of them but the last. -/
theorem setClaimAtPath_eq_ok : setClaimAtPath heap claims path value = .ok (heap', result) ↔
    (∀ segment ∈ Js.split '.' path, refused segment = false) ∧ result = claims + heap.length ∧
      ∃ way last heap'' target, Js.split '.' path = way ++ [last] ∧
        descend inherited (clone heap) (claims + heap.length) way = some (heap'', target) ∧
          heap' = setMember heap'' target last value := by
  obtain ⟨way, last, hsegments⟩ := (List.eq_nil_or_concat (Js.split '.' path)).resolve_left Js.split_ne_nil
  rw [List.concat_eq_append] at hsegments
  have hlast : (way ++ [last]).getLast? = some last := by simp
  have hway : (way ++ [last]).dropLast = way := by simp
  simp only [setClaimAtPath, structuredClone, hsegments, hlast, hway]
  by_cases hrefused : (way ++ [last]).any refused = true
  · rw [if_pos hrefused]
    refine ⟨nofun, fun h => ?_⟩
    obtain ⟨segment, hmem, hsegment⟩ := List.any_eq_true.mp hrefused
    rw [h.1 segment hmem] at hsegment
    cases hsegment
  · rw [if_neg hrefused]
    have hall : ∀ segment ∈ way ++ [last], refused segment = false := fun segment hmem => by
      rw [← Bool.not_eq_true]
      exact fun h => hrefused (List.any_eq_true.mpr ⟨segment, hmem, h⟩)
    have hnonempty : last ≠ "" := by
      rintro rfl
      exact absurd (hall "" (by simp)) (by decide)
    cases hdescend : descend inherited (clone heap) (claims + heap.length) way with
    | none =>
      refine ⟨nofun, ?_⟩
      rintro ⟨-, -, way', last', heap'', target, happend, hsome, -⟩
      obtain ⟨rfl, -⟩ := List.append_inj' happend rfl
      cases hdescend.symm.trans hsome
    | some found =>
      obtain ⟨heap'', target⟩ := found
      simp only [if_neg hnonempty, Except.ok.injEq, Prod.mk.injEq]
      constructor
      · rintro ⟨rfl, rfl⟩
        exact ⟨hall, rfl, way, last, heap'', target, rfl, hdescend, rfl⟩
      · rintro ⟨-, rfl, way', last', heap₁, target', happend, hsome, rfl⟩
        obtain ⟨rfl, hlast'⟩ := List.append_inj' happend rfl
        cases hlast'
        cases hdescend.symm.trans hsome
        exact ⟨rfl, rfl⟩

/-- **Writing at a path sets the value in the tree of the claims**, and succeeds where the tree allows it. -/
theorem setClaimAtPath_spec (claims : Object heap) (value : HeldValue heap)
    (hrefused : ∀ segment ∈ Js.split '.' path, refused segment = false) :
    ((∀ r, setClaimAtPath heap claims.address path value.value ≠ .ok r) ∧
        ObjectTree.set inherited claims.members (Js.split '.' path) value.tree = none) ∨
      ∃ heap' result members', setClaimAtPath heap claims.address path value.value = .ok (heap', result) ∧
        ObjectTree.set inherited claims.members (Js.split '.' path) value.tree = some members' ∧
        Copied inherited heap (Js.split '.' path) value.value heap' result members' := by
  obtain ⟨way, last, hsegments⟩ := (List.eq_nil_or_concat (Js.split '.' path)).resolve_left Js.split_ne_nil
  rw [List.concat_eq_append] at hsegments
  rcases @descend_clone_spec _ _ inherited way claims value last with ⟨hnone, hset⟩ |
    ⟨heap', target, members', hsome, hset, h⟩
  · refine Or.inl ⟨?_, by rw [hsegments, hset]⟩
    rintro ⟨heap', result⟩ h
    obtain ⟨-, -, way', last', heap'', target, hsegments', hsome, -⟩ := setClaimAtPath_eq_ok.mp h
    obtain ⟨rfl, -⟩ := List.append_inj' (hsegments.symm.trans hsegments') rfl
    cases hnone.symm.trans hsome
  · refine Or.inr
      ⟨_, _, members', setClaimAtPath_eq_ok.mpr ⟨hrefused, rfl, way, last, heap', target, hsegments, hsome, rfl⟩, ?_, ?_⟩
    · rw [hsegments, hset]
    · rw [hsegments]
      exact h

/-- The tree of the claims after a success. -/
theorem setClaimAtPath_copied (claims : Object heap) (value : HeldValue heap)
    (h : setClaimAtPath heap claims.address path value.value = .ok (heap', result)) :
    ∃ members', ObjectTree.set inherited claims.members (Js.split '.' path) value.tree = some members' ∧
      Copied inherited heap (Js.split '.' path) value.value heap' result members' := by
  rcases setClaimAtPath_spec claims value (setClaimAtPath_eq_ok.mp h).1 with ⟨hnone, -⟩ |
    ⟨heap'', result', members', hok, hset, hcopied⟩
  · exact absurd h (hnone _)
  · cases h.symm.trans hok
    exact ⟨members', hset, hcopied⟩

/-- The other path ends at an inherited name of an object that is not there before something is written at `path`. -/
def EndsInherited (heap : Heap β) (claims : Nat) (path other : String) : Prop :=
  ∃ way name, Js.split '.' other = way ++ [name] ∧ way ≠ [] ∧ way <+: Js.split '.' path ∧
    claimAt heap (.own (.ref claims)) way = .undefined ∧ inherited name = true

/-- The names that every object inherits are not refused. -/
theorem refused_inherited {name : String} (h : inherited name = true) : refused name = false := by
  have hall : ∀ n ∈ inheritedNames, refused n = false := by decide
  exact hall name (List.contains_iff_mem.mp h)

theorem claimAt_shows {members : List (String × ValueTree β)} {address : Nat}
    (hshows : Shows heap (· < heap.length) (.ref address) (.node false members))
    (h : ∀ segment ∈ segments, refused segment = false) :
    FoundShows heap (· < heap.length) (claimAt heap (.own (.ref address)) segments)
      (ObjectTree.get inherited (.own (.node false members)) segments) := by
  rw [claimAt_eq h]
  exact (FoundShows.own hshows).walk segments

theorem endsInherited_iff (claims : Object heap) (h : ∀ segment ∈ Js.split '.' path, refused segment = false) :
    EndsInherited heap claims.address path other ↔
      ObjectTree.Made inherited claims.members (Js.split '.' path) (Js.split '.' other) := by
  have hway : ∀ way, way <+: Js.split '.' path → (claimAt heap (.own (.ref claims.address)) way = .undefined ↔
      ObjectTree.get inherited (.own (.node false claims.members)) way = .undefined) := fun way hbegins =>
    (claimAt_shows claims.shows fun segment hmem => h segment (hbegins.subset hmem)).eq_undefined_iff
  constructor
  · rintro ⟨way, name, hother, hnonempty, hbegins, hundefined, hname⟩
    exact ⟨way, name, hother, hnonempty, hbegins, (hway way hbegins).mp hundefined, hname⟩
  · rintro ⟨way, name, hother, hnonempty, hbegins, hundefined, hname⟩
    exact ⟨way, name, hother, hnonempty, hbegins, (hway way hbegins).mpr hundefined, hname⟩

/-- What another path leads to after a success. -/
theorem claimAtPath_other (claims : Object heap) (value : HeldValue heap)
    (h : setClaimAtPath heap claims.address path value.value = .ok (heap', result))
    (hnot : ¬Js.split '.' path <+: Js.split '.' other) (hnot' : ¬Js.split '.' other <+: Js.split '.' path) :
    (¬EndsInherited heap claims.address path other →
        Same heap (claimAtPath heap claims.address other) heap' (claimAtPath heap' result other)) ∧
      (EndsInherited heap claims.address path other →
        claimAtPath heap claims.address other = .undefined ∧
          ∃ name, claimAtPath heap' result other = .inherited name) := by
  have hrefused := (setClaimAtPath_eq_ok.mp h).1
  obtain ⟨members', hset, hcopied⟩ := setClaimAtPath_copied claims value h
  obtain ⟨hsame, hmade⟩ := ObjectTree.get_set_other hset hnot hnot'
  rw [endsInherited_iff claims hrefused]
  by_cases hother : ∀ segment ∈ Js.split '.' other, refused segment = false
  · have hbefore := claimAt_shows claims.shows hother
    have hafter := claimAt_shows hcopied.shows hother
    refine ⟨fun hnotMade => ⟨_, hbefore, ?_⟩, fun hm => ?_⟩
    · rw [hsame hnotMade] at hafter
      exact hafter
    · obtain ⟨hundefined, name, hname⟩ := hmade hm
      exact ⟨hbefore.eq_undefined_iff.mpr hundefined, name, (hafter.eq_inherited_iff name).mpr hname⟩
  · -- a refused segment leads to nothing, before and after
    simp only [not_forall, Bool.not_eq_false] at hother
    obtain ⟨segment, hmem, hsegment⟩ := hother
    constructor
    · intro _
      refine ⟨.undefined, ?_, ?_⟩
      · rw [claimAtPath, claimAt_refused hmem hsegment]
        exact .undefined
      · rw [claimAtPath, claimAt_refused hmem hsegment]
        exact .undefined
    · rintro ⟨way, name, hsplit, -, hbegins, -, hname⟩
      rw [hsplit] at hmem
      rcases List.mem_append.mp hmem with hway | hlast
      · rw [hrefused segment (hbegins.subset hway)] at hsegment
        cases hsegment
      · rw [List.mem_singleton.mp hlast, refused_inherited hname] at hsegment
        cases hsegment

/-- A second success at the same path leaves what it would have left alone. -/
theorem setClaimAtPath_twice (claims : Object heap) (value second : HeldValue heap)
    (h : setClaimAtPath heap claims.address path value.value = .ok (heap', result)) :
    ∃ heap₂ result₂ heap₃ result₃, setClaimAtPath heap' result path second.value = .ok (heap₂, result₂) ∧
      setClaimAtPath heap claims.address path second.value = .ok (heap₃, result₃) ∧
      claimAtPath heap₂ result₂ path = .own second.value ∧
        Same heap₂ (.own (.ref result₂)) heap₃ (.own (.ref result₃)) := by
  have hrefused := (setClaimAtPath_eq_ok.mp h).1
  obtain ⟨members', hset, hcopied⟩ := setClaimAtPath_copied claims value h
  obtain ⟨members'', hset'⟩ := @ObjectTree.set_isSome _ _ _ _ _ _ second.tree hset
  have hsecond : Shows heap' (· < heap'.length) second.value second.tree :=
    second.shows.frame fun x hx => ⟨Nat.lt_of_lt_of_le hx hcopied.length_le, hcopied.same x hx⟩
  rcases setClaimAtPath_spec ⟨result, members', hcopied.shows⟩ ⟨second.value, second.tree, hsecond⟩ hrefused with
    ⟨-, hnone⟩ | ⟨heap₂, result₂, members₂, hok₂, hset₂, hcopied₂⟩
  · cases (hnone.symm.trans (ObjectTree.set_set hset)).trans hset'
  rcases setClaimAtPath_spec claims second hrefused with ⟨-, hnone⟩ | ⟨heap₃, result₃, members₃, hok₃, hset₃, hcopied₃⟩
  · cases hnone.symm.trans hset'
  refine ⟨heap₂, result₂, heap₃, result₃, hok₂, hok₃, ?_, ?_⟩
  · rw [claimAtPath, claimAt_eq hrefused]
    exact hcopied₂.read
  · cases (hset₂.symm.trans (ObjectTree.set_set hset)).trans hset₃
    exact ⟨_, .own hcopied₂.shows, .own hcopied₃.shows⟩

/-- **What is read after a success.** The path leads to the value; another path leads to what it led to, except that it
leads to an inherited name where the object at whose name it ends had to be made; the object that was there stays as it
is; and a second value at the same path leaves nothing of the first. -/
theorem setClaimAtPath_lens (claims : Object heap) (value : HeldValue heap)
    (h : setClaimAtPath heap claims.address path value.value = .ok (heap', result)) :
    claimAtPath heap' result path = .own value.value ∧
    (∀ other, ¬Js.split '.' path <+: Js.split '.' other → ¬Js.split '.' other <+: Js.split '.' path →
      (¬EndsInherited heap claims.address path other →
          Same heap (claimAtPath heap claims.address other) heap' (claimAtPath heap' result other)) ∧
        (EndsInherited heap claims.address path other →
          claimAtPath heap claims.address other = .undefined ∧
            ∃ name, claimAtPath heap' result other = .inherited name)) ∧
    (∀ x < heap.length, heap'[x]? = heap[x]?) ∧
    ∀ second : HeldValue heap, ∃ heap₂ result₂ heap₃ result₃, setClaimAtPath heap' result path second.value =
      .ok (heap₂, result₂) ∧
      setClaimAtPath heap claims.address path second.value = .ok (heap₃, result₃) ∧
      claimAtPath heap₂ result₂ path = .own second.value ∧
        Same heap₂ (.own (.ref result₂)) heap₃ (.own (.ref result₃)) := by
  obtain ⟨members', -, hcopied⟩ := setClaimAtPath_copied claims value h
  refine ⟨?_, fun other => claimAtPath_other claims value h, hcopied.same,
    fun second => setClaimAtPath_twice claims value second h⟩
  rw [claimAtPath, claimAt_eq (setClaimAtPath_eq_ok.mp h).1]
  exact hcopied.read

/-- Claims without members, and an empty list of groups. -/
def bare : Heap Nat := [⟨false, []⟩, ⟨true, []⟩]

def bareClaims : Object bare := ⟨0, [], by
  rw [Shows]
  exact ⟨0, [], rfl, by decide, rfl, by rw [ShowsMembers]⟩⟩

def noGroups : HeldValue bare := ⟨.ref 1, .node true [], by
  rw [Shows]
  exact ⟨1, [], rfl, by decide, rfl, by rw [ShowsMembers]⟩⟩

/-- The bare claims with no groups at `a.b`. -/
def written : Heap Nat :=
  [⟨false, []⟩, ⟨true, []⟩, ⟨false, [("a", .ref 4)]⟩, ⟨true, []⟩, ⟨false, [("b", .ref 1)]⟩]

theorem setClaimAtPath_bare : setClaimAtPath bare bareClaims.address "a.b" noGroups.value = .ok (written, 2) := by
  decide +kernel

theorem setClaimAtPath_lens_bare : claimAtPath written 2 "a.b" = .own (.ref 1) :=
  (setClaimAtPath_lens bareClaims noGroups setClaimAtPath_bare).1

/-- The object that was made for `a.b` is asked for `a.toString`, which led to nothing before. -/
theorem inherited_appears : setClaimAtPath bare bareClaims.address "a.b" noGroups.value = .ok (written, 2) ∧
    ¬Js.split '.' "a.b" <+: Js.split '.' "a.toString" ∧ ¬Js.split '.' "a.toString" <+: Js.split '.' "a.b" ∧
    claimAtPath bare bareClaims.address "a.toString" = .undefined ∧
      claimAtPath written 2 "a.toString" = .inherited "toString" := by
  decide +kernel

end AdWiki.Sso.ClaimPaths
