import AdWiki.Access.OneAuthority

/-!
# Ways of authentication

A user reaches the services by a web session, by an MCP token (the preview for administrators builds the same actor)
or by an API key with or without an allowlist. On each way the answer about a pair is either the same for all pairs
(a protected user, an inactive one, a pair outside the allowlist) or that of the rows of the user and of one role:
`decidingRole` is this role, and `allows_of_deciding` the answer.
-/

namespace AdWiki.Access

inductive Way
  | session
  | mcpToken
  | apiKey (apiKeyId : String) (permissions : Option (List Permission))
  deriving DecidableEq

/-- Is the pair within the allowlist of the key? -/
def Way.admits (way : Way) (p : Permission) : Bool :=
  match way with
  | .apiKey _ (some allowlist) => allowlist.contains p
  | _ => true

/-- Is a protected user answered without a look at the rows? -/
def Way.exempts (way : Way) (user : User) : Bool :=
  match way with
  | .apiKey _ _ => false
  | _ => user.isProtected

namespace Directory

variable (d : Directory)

/-- The actor that the user is on this way. -/
def actor (way : Way) (userId : String) : Option AuthenticatedUser :=
  match way with
  | .session => d.validateUser userId false
  | .mcpToken => (d.findUser userId).bind fun (user, role) =>
    if user.isActive then some (localActor user role user.roleId) else none
  | .apiKey apiKeyId permissions => (d.findUser userId).bind fun (user, role) =>
    if user.isActive then some (keyActor user role apiKeyId permissions) else none

/-- `isAllowed` for the user on this way. -/
def allows (way : Way) (userId : String) (p : Permission) : Bool := (d.actor way userId).any (d.isAllowed · p)

/-- The role that a user has on this way. -/
def roleIdBy (way : Way) (user : User) (role : Role) : String :=
  match way with
  | .session => (effectiveRole role (d.externalRoleGrantsOf user.id)).id
  | _ => role.id

/-- The role whose entries decide on the pair, if the rows do. -/
def decidingRole (way : Way) (userId : String) (p : Permission) : Option String :=
  (d.findUser userId).bind fun (user, role) =>
    if user.isActive ∧ way.exempts user = false ∧ way.admits p then some (d.roleIdBy way user role) else none

/-- Is the user allowed everything on this way? -/
def exempt (way : Way) (userId : String) : Bool :=
  (d.findUser userId).any fun (user, _) => user.isActive && way.exempts user

end Directory

variable {env : TokenEnv} {d : Directory} {credentials : Credentials} {now : Time} {way : Way} {userId roleId : String}
  {user : User} {role : Role} {p : Permission}

/-- The actor of an accepted MCP token is that of its user on the way `mcpToken`. -/
theorem actor_of_verifyMcpToken {rawToken : String} {expectedResource : Option String} {access : VerifiedMcpAccess}
    (h : verifyMcpToken env d credentials now rawToken expectedResource = .ok (some access)) :
    d.actor .mcpToken access.user.id = some access.user := by
  obtain ⟨id, user, role, hu, hactive, hactor⟩ := verifyMcpToken_user h
  obtain ⟨hid, hrole⟩ := Directory.findUser_ids hu
  rw [hactor]
  show d.actor .mcpToken user.id = _
  simp only [Directory.actor, hid, hu, Option.bind_some, if_pos hactive, hrole]

/-- The actor of an accepted API key is that of its user on the way `apiKey`. -/
theorem actor_of_verifyApiKey {rawKey : String} {verified : VerifiedApiKey}
    (h : verifyApiKey env d credentials now rawKey = some verified) :
    d.actor (.apiKey verified.apiKeyId verified.permissions) verified.user.id = some verified.user := by
  obtain ⟨id, user, role, hu, hactive, hactor⟩ := verifyApiKey_user h
  obtain ⟨hid, -⟩ := Directory.findUser_ids hu
  rw [hactor]
  show d.actor _ user.id = _
  simp only [Directory.actor, hid, hu, Option.bind_some, if_pos hactive]

/-- What `isAllowed` answers on a way. -/
theorem isAllowed_actor {actor : AuthenticatedUser} (hu : d.findUser userId = some (user, role))
    (h : d.actor way userId = some actor) : user.isActive = true ∧ d.isAllowed actor p =
      (way.exempts user || (way.admits p && verdict (d.override userId p) (d.acl (d.roleIdBy way user role) p))) := by
  obtain ⟨hid, hrole⟩ := Directory.findUser_ids hu
  cases way with
  | session =>
    simp only [Directory.actor, Directory.validateUser, Directory.resolveUser, hu, Bool.false_eq_true, if_false,
      Option.map_some, Option.some_or] at h
    split at h
    · next hactive =>
      cases h
      refine ⟨hactive, ?_⟩
      cases hprotected : user.isProtected <;>
        simp [Directory.isAllowed, Directory.toAuthenticatedUser, Way.exempts, Way.admits, Directory.roleIdBy,
          hprotected, ← hid]
    · cases h
  | mcpToken =>
    simp only [Directory.actor, hu, Option.bind_some] at h
    split at h
    · next hactive =>
      cases h
      refine ⟨hactive, ?_⟩
      cases hprotected : user.isProtected <;>
        simp [Directory.isAllowed, Directory.localActor, Way.exempts, Way.admits, Directory.roleIdBy, hprotected,
          ← hid, hrole]
    · cases h
  | apiKey apiKeyId permissions =>
    simp only [Directory.actor, hu, Option.bind_some] at h
    split at h
    · next hactive =>
      cases h
      refine ⟨hactive, ?_⟩
      cases permissions with
      | none =>
        simp [Directory.isAllowed, Directory.keyActor, Way.exempts, Way.admits, Directory.roleIdBy, ← hid]
      | some allowlist =>
        cases hlist : allowlist.contains p <;>
          simp_all [Directory.isAllowed, Directory.keyActor, Way.exempts, Way.admits, Directory.roleIdBy]
    · cases h

theorem actor_isSome (hu : d.findUser userId = some (user, role)) (hactive : user.isActive = true) :
    ∃ actor, d.actor way userId = some actor := by
  cases way <;>
    simp [Directory.actor, Directory.validateUser, Directory.resolveUser, hu, hactive]

/-- The answer on a way, from the rows of the user. -/
theorem allows_eq (hu : d.findUser userId = some (user, role)) : d.allows way userId p =
    (user.isActive && (way.exempts user ||
      (way.admits p && verdict (d.override userId p) (d.acl (d.roleIdBy way user role) p)))) := by
  unfold Directory.allows
  cases hactor : d.actor way userId with
  | none =>
    cases hactive : user.isActive with
    | false => rfl
    | true =>
      obtain ⟨actor, h⟩ : ∃ actor, d.actor way userId = some actor := actor_isSome hu hactive
      rw [hactor] at h
      cases h
  | some actor =>
    obtain ⟨hactive, hanswer⟩ := isAllowed_actor (p := p) hu hactor
    rw [hactive, Option.any_some, hanswer, Bool.true_and]

theorem allows_of_noUser (hu : d.findUser userId = none) : d.allows way userId p = false := by
  cases way <;>
    simp [Directory.allows, Directory.actor, Directory.validateUser, Directory.resolveUser, hu]

/-- Where the rows decide, the answer is that of the deciding role. -/
theorem allows_of_deciding (h : d.decidingRole way userId p = some roleId) :
    d.allows way userId p = verdict (d.override userId p) (d.acl roleId p) := by
  obtain ⟨⟨user, role⟩, hu, hrole⟩ := Option.bind_eq_some_iff.mp h
  simp only at hrole
  split at hrole
  · next hcond =>
    obtain ⟨hactive, hexempt, hadmits⟩ := hcond
    cases hrole
    rw [allows_eq hu, hactive, hexempt, hadmits]
    simp
  · cases hrole

/-- Where they do not, the user is allowed everything or the pair is refused. -/
theorem allows_of_not_deciding (h : d.decidingRole way userId p = none) :
    d.allows way userId p = d.exempt way userId := by
  cases hu : d.findUser userId with
  | none => rw [allows_of_noUser hu, Directory.exempt, hu]; rfl
  | some pair =>
    obtain ⟨user, role⟩ := pair
    rw [allows_eq hu, Directory.exempt, hu, Option.any_some]
    rw [Directory.decidingRole, hu, Option.bind_some] at h
    simp only at h
    split at h
    · cases h
    · next hcond =>
      cases hactive : user.isActive <;> cases hexempt : way.exempts user <;> simp_all

end AdWiki.Access
