import AdWiki.Common.JsString
import AdWiki.Sso.Tables
import Mathlib

/-!
# The values of a claim

A provider's claims are any JSON object. The values that a synchronisation works with are the strings under the
configured path, trimmed, each once and in the order of `localeCompare`.

* `mem_normalizeClaimValues`: which values those are.
-/

namespace AdWiki.Sso

/-- The values that a JSON text can have. A number is kept as its text. -/
inductive Json
  | null
  | bool (b : Bool)
  | num (n : String)
  | str (s : String)
  | arr (items : List Json)
  | obj (fields : List (String × Json))

/-- `left.localeCompare(right)`, by the rules of the locale. -/
structure Env where
  localeCompare : String → String → Int

inductive IdentitySyncErrorCode
  | groupClaimInvalid
  | groupMappingAmbiguous
  | roleClaimInvalid
  | rolePriorityConflict
  | adminRoleMappingDisabled
  deriving DecidableEq, Repr

def IdentitySyncErrorCode.text : IdentitySyncErrorCode → String
  | .groupClaimInvalid => "group_claim_invalid"
  | .groupMappingAmbiguous => "group_mapping_ambiguous"
  | .roleClaimInvalid => "role_claim_invalid"
  | .rolePriorityConflict => "role_priority_conflict"
  | .adminRoleMappingDisabled => "admin_role_mapping_disabled"

structure NormalizedClaims where
  groups : List String
  roles : List String
  deriving DecidableEq, Repr

def maxSyncValues : Nat := 500

def maxSyncValueLength : Nat := 2000

/-- The walk of `claimAtPath`; what an object inherits is a function, and as good as undefined here. -/
def claimAt : Json → List String → Option Json
  | current, [] => some current
  | .obj fields, segment :: path =>
    if segment = "" ∨ segment = "__proto__" ∨ segment = "prototype" ∨ segment = "constructor" then none
    else
      match fields.lookup segment with
      | some next => claimAt next path
      | none => none
  | _, _ :: _ => none

def claimAtPath (claims : List (String × Json)) (path : String) : Option Json :=
  claimAt (.obj claims) (Js.split '.' path)

/-- A string, or the strings of an array of strings. -/
def claimStrings : Option Json → Option (List String)
  | some (.str s) => some [s]
  | some (.arr items) =>
    items.mapM fun
      | .str s => some s
      | _ => none
  | _ => none

section Normalize

variable (env : Env)

def normalizeClaimValues (claims : List (String × Json)) (path : Option String) (errorCode : IdentitySyncErrorCode) :
    Except IdentitySyncErrorCode (List String) :=
  match path with
  | none => .ok []
  | some path =>
    if path = "" then .ok []
    else
      match claimStrings (claimAtPath claims path) with
      | none => .error errorCode
      | some values =>
        let normalized := values.map Js.trim
        if values.length > maxSyncValues ∨
            normalized.any fun value => Js.length value = 0 || Js.length value > maxSyncValueLength then
          .error errorCode
        else .ok ((Js.distinct normalized).insertionSort fun left right => env.localeCompare left right ≤ 0)

end Normalize

/-- The claim under the path has the value, up to white space around it. -/
def Names (claims : List (String × Json)) (path : Option String) (value : String) : Prop :=
  ∃ p strings raw, path = some p ∧ p ≠ "" ∧ claimStrings (claimAtPath claims p) = some strings ∧ raw ∈ strings ∧
    Js.trim raw = value

variable {env : Env} {claims : List (String × Json)} {path : Option String} {errorCode : IdentitySyncErrorCode}
  {values : List String} {value : String}

/-- The normalized values are those that the claim names. -/
theorem mem_normalizeClaimValues (h : normalizeClaimValues env claims path errorCode = .ok values) :
    value ∈ values ↔ Names claims path value := by
  unfold normalizeClaimValues at h
  split at h
  · cases h
    simp [Names]
  · next p =>
    split at h
    · next hempty =>
      cases h
      simp [Names, hempty]
    · next hpath =>
      split at h
      · cases h
      · next strings hstrings =>
        dsimp only at h
        split at h
        · cases h
        · cases h
          simp only [List.mem_insertionSort, Js.mem_distinct, List.mem_map]
          constructor
          · rintro ⟨raw, hraw, rfl⟩
            exact ⟨p, strings, raw, rfl, hpath, hstrings, hraw, rfl⟩
          · rintro ⟨p', strings', raw, hp, -, hstrings', hraw, rfl⟩
            cases hp
            rw [hstrings] at hstrings'
            cases hstrings'
            exact ⟨raw, hraw, rfl⟩

end AdWiki.Sso
