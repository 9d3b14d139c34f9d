import AdWiki.Access.Authority

/-!
# One user, one authority

The services ask in six ways what a user may do. Four of them take the local role of the user, two take the effective
one: the web session (`isAllowed_session`) and the list that the client shows (`mem_getEffectivePermissions`). So they
agree about a user who is not protected exactly where the external role grant in force, if there is one, changes
nothing (`one_authority`).
-/

namespace AdWiki.Access

section Answers

variable {env : TokenEnv} {d : Directory} {credentials : Credentials} {now : Time} {userId : String} {user : User}
  {role : Role} {p : Permission}

/-- All six answers about a pair are `granted`. -/
structure Agree (env : TokenEnv) (d : Directory) (credentials : Credentials) (now : Time) (userId : String)
    (p : Permission) (granted : Bool) : Prop where
  session : ∀ refresh actor, d.validateUser userId refresh = some actor → d.isAllowed actor p = granted
  mcpToken : ∀ rawToken expectedResource access,
    verifyMcpToken env d credentials now rawToken expectedResource = .ok (some access) → access.user.id = userId →
      d.isAllowed access.user p = granted
  apiKey : ∀ rawKey verified, verifyApiKey env d credentials now rawKey = some verified → verified.permissions = none →
    verified.user.id = userId → d.isAllowed verified.user p = granted
  preview : ∀ actor, d.inspectedActor userId = .ok actor → d.isAllowed actor p = granted
  ceiling : ∃ keys, d.effectivePermissionKeys userId = .ok keys ∧ (p.key ∈ keys ↔ granted = true)
  client : ⟨p, true⟩ ∈ d.getEffectivePermissions userId ↔ granted = true

/-- The six answers about the user agree on every pair of the catalog. -/
structure OneAuthority (env : TokenEnv) (d : Directory) (credentials : Credentials) (now : Time) (userId : String) :
    Prop where
  agree : ∀ p, isPermissionSupported p = true → ∃ granted, Agree env d credentials now userId p granted

/-- What the rows say with the local role, and with the effective role. -/
def Directory.localVerdict (d : Directory) (user : User) (p : Permission) : Bool :=
  verdict (d.override user.id p) (d.acl user.roleId p)

def Directory.effectiveVerdict (d : Directory) (user : User) (role : Role) (p : Permission) : Bool :=
  verdict (d.override user.id p) (d.acl (effectiveRole role (d.externalRoleGrantsOf user.id)).id p)

/-- An actor that is neither protected nor limited is answered from the rows. -/
theorem isAllowed_of_rows {actor : AuthenticatedUser} (hprotected : actor.isProtected ≠ some true)
    (hlimits : actor.apiKeyPermissions = none) :
    d.isAllowed actor p = verdict (d.override actor.id p) (d.acl actor.roleId p) := by
  unfold Directory.isAllowed
  rw [if_neg (fun h => hprotected h.1), hlimits]
  rfl

theorem isAllowed_session (hu : d.findUser userId = some (user, role)) (hprotected : user.isProtected = false)
    {refresh : Bool} {actor : AuthenticatedUser} (h : d.validateUser userId refresh = some actor) :
    d.isAllowed actor p = d.effectiveVerdict user role p := by
  unfold Directory.validateUser at h
  split at h
  · cases h
  · simp only [Directory.resolveUser, hu, Option.map_some, Option.some_or] at h
    split at h
    · cases h
      refine isAllowed_of_rows ?_ rfl
      simp [Directory.toAuthenticatedUser, hprotected]
    · cases h

theorem isAllowed_localActor (hprotected : user.isProtected = false) :
    d.isAllowed (Directory.localActor user role user.roleId) p = d.localVerdict user p := by
  refine isAllowed_of_rows ?_ rfl
  simp [Directory.localActor, hprotected]

/-- The actor of an accepted MCP token is the user of the token with the local role. -/
theorem verifyMcpToken_user {rawToken : String} {expectedResource : Option String} {access : VerifiedMcpAccess}
    (h : verifyMcpToken env d credentials now rawToken expectedResource = .ok (some access)) :
    ∃ id user role, d.findUser id = some (user, role) ∧ user.isActive = true ∧
      access.user = Directory.localActor user role role.id := by
  unfold verifyMcpToken at h
  split at h
  · cases h
  · split at h
    · cases h
    · split at h
      · cases h
      · next row _ _ user role hu =>
        split at h
        · cases h
        · next hlive =>
          obtain ⟨other, -, h⟩ := Fallible.bind_eq_ok.mp h
          simp only at h
          split at h
          · cases Fallible.pure_eq_ok.mp h
          · split at h
            · cases Fallible.pure_eq_ok.mp h
            · cases Fallible.pure_eq_ok.mp h
              exact ⟨row.userId, user, role, hu, by simpa using fun hinactive => hlive (Or.inr (Or.inr hinactive)), rfl⟩

theorem isAllowed_mcpToken (hu : d.findUser userId = some (user, role)) (hprotected : user.isProtected = false)
    {rawToken : String} {expectedResource : Option String} {access : VerifiedMcpAccess}
    (h : verifyMcpToken env d credentials now rawToken expectedResource = .ok (some access))
    (hid : access.user.id = userId) : d.isAllowed access.user p = d.localVerdict user p := by
  obtain ⟨id, user', role', hu', -, hactor⟩ := verifyMcpToken_user h
  obtain ⟨hid', hrole'⟩ := Directory.findUser_ids hu'
  rw [hactor] at hid
  have hsame : id = userId := hid'.symm.trans hid
  rw [hsame, hu] at hu'
  cases hu'
  rw [hactor, hrole']
  exact isAllowed_localActor hprotected

/-- The actor of an accepted API key is the user of the key with the local role. -/
theorem verifyApiKey_user {rawKey : String} {verified : VerifiedApiKey}
    (h : verifyApiKey env d credentials now rawKey = some verified) :
    ∃ id user role, d.findUser id = some (user, role) ∧ user.isActive = true ∧
      verified.user = Directory.keyActor user role verified.apiKeyId verified.permissions := by
  unfold verifyApiKey at h
  split at h
  · cases h
  · obtain ⟨row, -, h⟩ := Option.bind_eq_some_iff.mp h
    obtain ⟨⟨user, role⟩, hu, h⟩ := Option.bind_eq_some_iff.mp h
    simp only at h
    split at h
    · cases h
    · next hlive =>
      cases h
      exact ⟨row.userId, user, role, hu, by simpa using fun hinactive => hlive (Or.inr (Or.inr (Or.inl hinactive))), rfl⟩

theorem isAllowed_apiKey (hu : d.findUser userId = some (user, role)) {rawKey : String} {verified : VerifiedApiKey}
    (h : verifyApiKey env d credentials now rawKey = some verified) (hlimits : verified.permissions = none)
    (hid : verified.user.id = userId) : d.isAllowed verified.user p = d.localVerdict user p := by
  obtain ⟨id, user', role', hu', -, hactor⟩ := verifyApiKey_user h
  obtain ⟨hid', hrole'⟩ := Directory.findUser_ids hu'
  rw [hactor] at hid
  have hsame : id = userId := hid'.symm.trans hid
  rw [hsame, hu] at hu'
  cases hu'
  rw [hactor]
  refine (isAllowed_of_rows (by simp [Directory.keyActor]) hlimits).trans ?_
  simp only [Directory.keyActor, hrole']
  rfl

theorem isAllowed_preview (hu : d.findUser userId = some (user, role)) (hprotected : user.isProtected = false)
    {actor : AuthenticatedUser} (h : d.inspectedActor userId = .ok actor) :
    d.isAllowed actor p = d.localVerdict user p := by
  unfold Directory.inspectedActor at h
  rw [hu] at h
  simp only at h
  split at h
  · cases h
    exact isAllowed_localActor hprotected
  · cases h

/-- The ceiling holds a pair of the catalog exactly where the rows with the local role allow it. -/
theorem mem_effectivePermissionKeys (hu : d.findUser userId = some (user, role)) (hprotected : user.isProtected = false)
    (hp : isPermissionSupported p = true) :
    ∃ keys, d.effectivePermissionKeys userId = .ok keys ∧ (p.key ∈ keys ↔ d.localVerdict user p = true) := by
  obtain ⟨-, hrole⟩ := Directory.findUser_ids hu
  refine ⟨_, by simp only [Directory.effectivePermissionKeys, hu, hprotected]; rfl, ?_⟩
  have hget : (d.overlay AclEntry.allowed role.id user.id).get? p.key =
      ((d.override user.id p).or (d.acl role.id p)).map fun allowed => allowed := get?_overlay hp
  rw [Option.map_id'] at hget
  simp only [List.mem_map, List.mem_filter, Directory.localVerdict, verdict, ← hrole, ← hget]
  constructor
  · rintro ⟨⟨key, allowed⟩, ⟨hmem, hallowed⟩, rfl⟩
    rw [OrderedMap.get?_eq_some.mpr hmem]
    exact hallowed
  · intro h
    obtain ⟨allowed, hsome, hallowed⟩ :
      ∃ allowed, (d.overlay AclEntry.allowed role.id user.id).get? p.key = some allowed ∧
        allowed = true := by
      cases hlook : (d.overlay AclEntry.allowed role.id user.id).get? p.key with
      | none =>
        rw [hlook] at h
        cases h
      | some allowed =>
        rw [hlook] at h
        exact ⟨allowed, rfl, h⟩
    exact ⟨(p.key, allowed), ⟨OrderedMap.get?_eq_some.mp hsome, hallowed⟩, rfl⟩

/-- The entries of a map built from a role and a user are those of its keys. -/
theorem mem_values_overlay {roleId : String} (hp : isPermissionSupported p = true) :
    (⟨p, true⟩ : AclEntry) ∈ (d.overlay id roleId userId).values ↔
      verdict (d.override userId p) (d.acl roleId p) = true := by
  rw [OrderedMap.mem_values]
  have hget : (d.overlay id roleId userId).get? p.key =
      ((d.override userId p).or (d.acl roleId p)).map fun allowed => ⟨p, allowed⟩ := get?_overlay hp
  constructor
  · rintro ⟨key, hkey⟩
    have hown : key = p.key := overlay_key hkey
    rw [hown, hget, Option.map_eq_some_iff] at hkey
    obtain ⟨allowed, hsome, hentry⟩ := hkey
    rw [verdict, hsome]
    exact congrArg AclEntry.allowed hentry
  · intro h
    refine ⟨p.key, ?_⟩
    rw [hget]
    unfold verdict at h
    cases hsome : (d.override userId p).or (d.acl roleId p) with
    | none =>
      rw [hsome] at h
      cases h
    | some allowed =>
      rw [hsome] at h
      rw [show allowed = true from h]
      rfl

/-- The client is told what the rows say with the effective role. -/
theorem mem_getEffectivePermissions (hu : d.findUser userId = some (user, role)) (hprotected : user.isProtected = false)
    (hp : isPermissionSupported p = true) :
    (⟨p, true⟩ : AclEntry) ∈ d.getEffectivePermissions userId ↔ d.effectiveVerdict user role p = true := by
  obtain ⟨-, hrole⟩ := Directory.findUser_ids hu
  have hroleId : (if (effectiveRole role (d.externalRoleGrantsOf user.id)).id ≠ user.roleId then
      (effectiveRole role (d.externalRoleGrantsOf user.id)).id else role.id) =
        (effectiveRole role (d.externalRoleGrantsOf user.id)).id := by
    split
    · rfl
    · next h => rw [not_not.mp h, hrole]
  simp only [Directory.getEffectivePermissions, Directory.resolveUser, hu, hprotected, Bool.false_eq_true, if_false,
    Option.map_some, hroleId]
  exact mem_values_overlay hp

/-- The role of the grant in force, if there is one, answers like the local role wherever the user has no override. -/
def GrantChangesNothing (d : Directory) (user : User) : Prop :=
  ∀ g, InForce (d.externalRoleGrantsOf user.id) g → ∀ p, isPermissionSupported p = true →
    d.override user.id p = none → (d.acl g.role.id p).getD false = (d.acl user.roleId p).getD false

theorem effectiveVerdict_eq_localVerdict (hu : d.findUser userId = some (user, role)) :
    (∀ p, isPermissionSupported p = true → d.effectiveVerdict user role p = d.localVerdict user p) ↔
      GrantChangesNothing d user := by
  obtain ⟨-, hrole⟩ := Directory.findUser_ids hu
  constructor
  · intro h g hg p hp hfree
    have hsame := h p hp
    simpa only [Directory.effectiveVerdict, Directory.localVerdict, effectiveRole_of_inForce hg, hfree, verdict,
      Option.none_or] using hsame
  · intro h p hp
    unfold Directory.effectiveVerdict Directory.localVerdict
    cases hfree : d.override user.id p with
    | some allowed => rfl
    | none =>
      rcases effectiveRole_cases role (d.externalRoleGrantsOf user.id) with ⟨g, hg, heff⟩ | ⟨-, heff⟩
      · rw [heff]
        exact h g hg p hp hfree
      · rw [heff, hrole]

end Answers

/-- **One user, one authority.** About every pair of the catalog the six answers for a user who is not protected agree,
exactly where the external role grant in force changes nothing. -/
theorem one_authority (env : TokenEnv) (d : Directory) (credentials : Credentials) (now : Time) {userId : String}
    {user : User} {role : Role} (hu : d.findUser userId = some (user, role)) (hprotected : user.isProtected = false) :
    OneAuthority env d credentials now userId ↔ GrantChangesNothing d user := by
  rw [← effectiveVerdict_eq_localVerdict hu]
  constructor
  · intro h p hp
    obtain ⟨granted, hagree⟩ := h.agree p hp
    obtain ⟨keys, hkeys, hceiling⟩ := hagree.ceiling
    obtain ⟨keys', hkeys', hlocal⟩ := mem_effectivePermissionKeys hu hprotected hp
    rw [hkeys] at hkeys'
    cases hkeys'
    rw [Bool.eq_iff_iff, ← mem_getEffectivePermissions hu hprotected hp, hagree.client, ← hceiling, hlocal]
  · intro h
    refine ⟨fun p hp => ⟨d.localVerdict user p, ?_⟩⟩
    exact
      { session := fun _ _ ha => (isAllowed_session hu hprotected ha).trans (h p hp)
        mcpToken := fun _ _ _ ha hid => isAllowed_mcpToken hu hprotected ha hid
        apiKey := fun _ _ ha hlimits hid => isAllowed_apiKey hu ha hlimits hid
        preview := fun _ ha => isAllowed_preview hu hprotected ha
        ceiling := mem_effectivePermissionKeys hu hprotected hp
        client := (mem_getEffectivePermissions hu hprotected hp).trans (by rw [h p hp]) }

/-! ## A grant that widens the role -/

namespace Demo

def user : User := ⟨"user", "user@wiki", "user", "User", "", "viewer", true, false, true⟩

def viewer : Role := ⟨"viewer", "viewer"⟩

/-- A viewer who has logged in through a provider that maps to the role of an editor. -/
def mapped : Directory where
  roles := ⟨[viewer, ⟨"editor", "editor"⟩], by decide⟩
  users := .single user
  acls := ⟨[⟨"viewer", "pages", "read", true⟩, ⟨"editor", "pages", "read", true⟩, ⟨"editor", "pages", "update", true⟩],
    by decide⟩
  permissions := .empty
  providers := .single ⟨"provider", 0⟩
  roleMappings := .single ⟨"mapping", 1, "provider"⟩
  externalIdentities := .single ⟨"identity", "user"⟩
  externalRoleGrants := .single ⟨"identity", "mapping", "editor"⟩

def unmapped : Directory := { mapped with externalRoleGrants := .empty }

/-- The editors may do what the viewers may. -/
def alike : Directory where
  roles := ⟨[viewer, ⟨"editor", "editor"⟩], by decide⟩
  users := .single user
  acls := ⟨[⟨"viewer", "pages", "read", true⟩, ⟨"editor", "pages", "read", true⟩], by decide⟩
  permissions := .empty
  providers := .single ⟨"provider", 0⟩
  roleMappings := .single ⟨"mapping", 1, "provider"⟩
  externalIdentities := .single ⟨"identity", "user"⟩
  externalRoleGrants := .single ⟨"identity", "mapping", "editor"⟩

def env : TokenEnv := ⟨id, fun rawKey keyHash => rawKey == keyHash, some⟩

def credentials : Credentials := ⟨.empty, .empty⟩

end Demo

/-- Without a grant the six answers agree, and also with one in force, for a role that may do the same. -/
theorem one_authority_alike : OneAuthority Demo.env Demo.unmapped Demo.credentials 0 "user" ∧
    (∃ g, InForce (Demo.alike.externalRoleGrantsOf Demo.user.id) g) ∧
    OneAuthority Demo.env Demo.alike Demo.credentials 0 "user" := by
  refine ⟨?_, ?_, ?_⟩
  · have hu : Demo.unmapped.findUser "user" = some (Demo.user, Demo.viewer) := by decide +kernel
    have hnone : Demo.unmapped.externalRoleGrantsOf Demo.user.id = [] := by decide +kernel
    refine (one_authority Demo.env Demo.unmapped Demo.credentials 0 hu rfl).mpr fun g hg => ?_
    exact absurd (hnone ▸ hg.mem) List.not_mem_nil
  · have hone : (Demo.alike.externalRoleGrantsOf Demo.user.id).map (·.roleMapping.priority) = [1] := by decide +kernel
    obtain ⟨g, hg, hpriority⟩ := List.map_eq_singleton_iff.mp hone
    refine ⟨g, hg ▸ List.mem_singleton_self g, fun h hh => ?_, ?_⟩
    · rw [hg, List.mem_singleton] at hh
      rw [hh]
    · rw [hg]
      simp
  · have hu : Demo.alike.findUser "user" = some (Demo.user, Demo.viewer) := by decide +kernel
    have hroles :
      ((Demo.alike.externalRoleGrantsOf Demo.user.id).all fun g => g.role.id == "editor") = true := by decide +kernel
    have hsame : (resources.all fun r => actions.all fun a =>
        (Demo.alike.acl "editor" ⟨r, a⟩).getD false == (Demo.alike.acl "viewer" ⟨r, a⟩).getD false) =
          true := by decide +kernel
    refine (one_authority Demo.env Demo.alike Demo.credentials 0 hu rfl).mpr fun g hg p _ _ => ?_
    have hrole : g.role.id = "editor" := beq_iff_eq.mp (List.all_eq_true.mp hroles g hg.mem)
    have hpair := List.all_eq_true.mp (List.all_eq_true.mp hsame p.resource (mem_resources _)) p.action (mem_actions _)
    rw [hrole]
    exact beq_iff_eq.mp hpair

/-- The web session may edit pages, while the ceiling does not have the pair. -/
theorem mapped_user_disagrees : isPermissionSupported ⟨.pages, .update⟩ = true ∧
    ¬∃ granted, Agree Demo.env Demo.mapped Demo.credentials 0 "user" ⟨.pages, .update⟩ granted := by
  refine ⟨by decide, ?_⟩
  rintro ⟨granted, hagree⟩
  have hsession : (Demo.mapped.validateUser "user" false).any (Demo.mapped.isAllowed · ⟨.pages, .update⟩) := by
    decide +kernel
  obtain ⟨actor, hactor, hallowed⟩ := (Option.any_eq_true _ _).mp hsession
  obtain rfl : granted = true := (hagree.session false actor hactor).symm.trans hallowed
  obtain ⟨keys, hkeys, hceiling⟩ := hagree.ceiling
  have hlocal : Demo.mapped.effectivePermissionKeys "user" = .ok ["pages:read"] := by decide +kernel
  rw [hlocal] at hkeys
  cases hkeys
  exact absurd (hceiling.mpr rfl) (by decide)

end AdWiki.Access
