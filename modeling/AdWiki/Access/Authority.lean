import AdWiki.Access.Directory
import AdWiki.Common.Http
import AdWiki.Lib.Fallible
import AdWiki.Lib.OrderedMap

/-!
# What a user may do

`PermissionService.isAllowed` answers for an `AuthenticatedUser`, a record that each way of authentication builds for
itself: the web session (`validateUser`), the MCP token (`McpTokenService.verify`), the API key
(`ApiKeysService.verify`) and the preview for administrators (`inspectedActor`). Two further functions list the
permissions of a user: `effectivePermissionKeys` for the ceiling of delegations and `getEffectivePermissions` for the
client.

All of them put the entry of the user before the entry of a role (`verdict`); `get?_overlay` says so for the maps that
the lists are built from.
-/

namespace AdWiki.Access

inductive AuthenticationMethod
  | jwt
  | apiKey
  deriving DecidableEq, Repr

/-- `request.user`; for `apiKeyPermissions`, `none` is both undefined and null. -/
structure AuthenticatedUser where
  id : String
  email : String
  username : String
  displayName : String
  roleId : String
  role : String
  isActive : Bool
  hasLocalPassword : Option Bool
  isProtected : Option Bool
  authenticationMethod : Option AuthenticationMethod
  apiKeyId : Option String
  apiKeyPermissions : Option (List Permission)
  deriving DecidableEq, Repr

/-- The entry of the user decides, then the entry of the role; without an entry the answer is no. -/
def verdict (override acl : Option Bool) : Bool := (override.or acl).getD false

namespace Directory

variable (d : Directory)

/-- The personal override of a user for a pair. -/
def override (userId : String) (p : Permission) : Option Bool :=
  (d.permissions.find (userId, p.resource.text, p.action.text)).map UserPermission.allowed

/-- The entry of a role for a pair. -/
def acl (roleId : String) (p : Permission) : Option Bool :=
  (d.acls.find (roleId, p.resource.text, p.action.text)).map Acl.allowed

/-- `PermissionService.isAllowed`. -/
def isAllowed (user : AuthenticatedUser) (p : Permission) : Bool :=
  if user.isProtected = some true ∧ user.authenticationMethod ≠ some .apiKey then true
  else if user.apiKeyPermissions.any fun allowlist => !allowlist.contains p then false
  else verdict (d.override user.id p) (d.acl user.roleId p)

/-- The entries of a role that the catalog has. -/
def aclEntries (roleId : String) : List AclEntry :=
  (d.acls.rows.filter fun row => row.roleId == roleId).filterMap fun row =>
    parseAclEntry row.resource row.action row.allowed

/-- The personal entries of a user that the catalog has. -/
def userEntries (userId : String) : List AclEntry :=
  (d.permissions.rows.filter fun row => row.userId == userId).filterMap fun row =>
    parseAclEntry row.resource row.action row.allowed

/-- The map that starts with the entries of a role and continues with those of a user, with `f` of each entry. -/
def overlay {β : Type} (f : AclEntry → β) (roleId userId : String) : OrderedMap String β :=
  ((OrderedMap.empty.setAll ((d.aclEntries roleId).map fun e => (e.permission.key, f e))).setAll
    ((d.userEntries userId).map fun e => (e.permission.key, f e)))

/-- `effectivePermissionKeys`, the ceiling of what a user may grant. -/
def effectivePermissionKeys (userId : String) : Except HttpError (List String) :=
  match d.findUser userId with
  | none => .error (.forbidden "Der ausführende Benutzer wurde nicht gefunden.")
  | some (user, role) =>
    if user.isProtected then .ok (supportedPermissions.map Permission.key)
    else .ok (((d.overlay AclEntry.allowed role.id user.id).entries.filter Prod.snd).map Prod.fst)

/-- `EffectiveRoleService.resolveUser`: the user with the effective role in place of the local one. -/
def resolveUser (userId : String) : Option (User × Role) :=
  (d.findUser userId).map fun (user, localRole) =>
    let role := effectiveRole localRole (d.externalRoleGrantsOf user.id)
    ({ user with roleId := role.id }, role)

/-- `AuthService.getEffectivePermissions`. -/
def getEffectivePermissions (userId : String) : List AclEntry :=
  match d.findUser userId with
  | none => []
  | some (user, role) =>
    if user.isProtected then supportedPermissions.map fun p => ⟨p, true⟩
    else
      let roleId := match (d.resolveUser userId).map Prod.snd with
        | some effective => if effective.id ≠ user.roleId then effective.id else role.id
        | none => role.id
      (d.overlay id roleId user.id).values

/-! ## Actors -/

def toAuthenticatedUser (user : User) (roleName : String) : AuthenticatedUser where
  id := user.id
  email := user.email
  username := user.username
  displayName := user.displayName
  roleId := user.roleId
  role := roleName
  isActive := user.isActive
  hasLocalPassword := some user.hasLocalPassword
  isProtected := some user.isProtected
  authenticationMethod := none
  apiKeyId := none
  apiKeyPermissions := none

/-- `AuthService.validateUser`, for the payload of a verified token. -/
def validateUser (userId : String) (refresh : Bool) : Option AuthenticatedUser :=
  if refresh then none
  else
    match (d.resolveUser userId).or (d.findUser userId) with
    | none => none
    | some (user, role) => if user.isActive then some (toAuthenticatedUser user role.name) else none

/-- The actor with the local role that an MCP token and the preview for administrators stand for. -/
def localActor (user : User) (role : Role) (roleId : String) : AuthenticatedUser where
  id := user.id
  email := user.email
  username := user.username
  displayName := user.displayName
  roleId := roleId
  role := role.name
  isActive := user.isActive
  hasLocalPassword := none
  isProtected := some user.isProtected
  authenticationMethod := some .jwt
  apiKeyId := none
  apiKeyPermissions := none

/-- The actor of an API key. -/
def keyActor (user : User) (role : Role) (apiKeyId : String) (permissions : Option (List Permission)) :
    AuthenticatedUser where
  id := user.id
  email := user.email
  username := user.username
  displayName := user.displayName
  roleId := role.id
  role := role.name
  isActive := user.isActive
  hasLocalPassword := none
  isProtected := none
  authenticationMethod := some .apiKey
  apiKeyId := some apiKeyId
  apiKeyPermissions := permissions

/-- The actor that `ResourceAccessService.evaluateForUser` evaluates for. -/
def inspectedActor (userId : String) : Except HttpError AuthenticatedUser :=
  match d.findUser userId with
  | none => .error (.notFound "Aktiver Benutzer wurde nicht gefunden.")
  | some (user, role) =>
    if user.isActive then .ok (localActor user role user.roleId)
    else .error (.notFound "Aktiver Benutzer wurde nicht gefunden.")

end Directory

/-! ## Tokens and keys -/

structure McpAccessToken where
  id : String
  userId : String
  tokenHash : String
  oauthClientId : Option String
  resource : Option String
  requestedScopes : List String
  expiresAt : Option Time
  revokedAt : Option Time
  deriving DecidableEq

/-- The JSON column `permissions` of an API key: null, a list of pairs of texts, or anything else. -/
inductive KeyPermissions
  | null
  | entries (pairs : List (String × String))
  | other
  deriving DecidableEq

structure ApiKey where
  id : String
  userId : String
  key : String
  keyHash : String
  permissions : KeyPermissions
  expiresAt : Option Time
  isActive : Bool
  deriving DecidableEq

structure Credentials where
  mcpAccessTokens : Table McpAccessToken.tokenHash
  apiKeys : Table ApiKey.key

/-- Platform functions: SHA-256 in hex, `bcrypt.compare`, and `canonicalResource`, which has no value where the URL
does not parse. -/
structure TokenEnv where
  hash : String → String
  compare : String → String → Bool
  canonicalResource : String → Option String

structure VerifiedMcpAccess where
  tokenId : String
  clientId : Option String
  user : AuthenticatedUser
  scopes : List String
  expiresAt : Option Time

structure VerifiedApiKey where
  apiKeyId : String
  permissions : Option (List Permission)
  user : AuthenticatedUser

section Verify

variable (env : TokenEnv) (d : Directory) (credentials : Credentials) (now : Time)

/-- Is the token bound to another resource than the expected one? An invalid URL throws. -/
def otherResource (resource expectedResource : Option String) : Except HttpError Bool :=
  match resource.filter (· ≠ ""), expectedResource.filter (· ≠ "") with
  | some bound, some expected =>
    match env.canonicalResource bound, env.canonicalResource expected with
    | some left, some right => .ok (left != right)
    | _, _ => .error (.internal "Invalid URL")
  | _, _ => .ok false

/-- The scopes of an OAuth token: without `mcp:write` only the reading ones. -/
def oauthScopes (requestedScopes scopes : List String) : List String :=
  let mayWrite := requestedScopes.contains "mcp:write"
  scopes.filter fun scope =>
    let action := (scope.splitOn ":")[1]?
    action == some "read" || action.isNone || mayWrite

/-- `McpTokenService.verify`. -/
def verifyMcpToken (rawToken : String) (expectedResource : Option String) :
    Except HttpError (Option VerifiedMcpAccess) :=
  if ¬"ad_wiki_mcp_".isPrefixOf rawToken then .ok none
  else
    match credentials.mcpAccessTokens.find (env.hash rawToken) with
    | none => .ok none
    | some row =>
      match d.findUser row.userId with
      | none => .ok none
      | some (user, role) =>
        if row.revokedAt.isSome ∨ row.expiresAt.any (· ≤ now) ∨ user.isActive = false then .ok none
        else do
          let other ← otherResource env row.resource expectedResource
          let permissions := d.getEffectivePermissions row.userId
          let scopes := (permissions.filter AclEntry.allowed).map fun entry => entry.permission.key
          let oauth := (row.oauthClientId.filter (· ≠ "")).isSome
          if other ∨ ¬scopes.contains "mcp:read" then pure none
          else if oauth ∧ (row.expiresAt.isNone ∨ ¬row.requestedScopes.contains "mcp:read") then pure none
          else
            pure <| some
              { tokenId := row.id
                clientId := row.oauthClientId
                user := Directory.localActor user role role.id
                scopes := if oauth then oauthScopes row.requestedScopes scopes else scopes
                expiresAt := row.expiresAt }

/-- `/^ad_wiki_[A-Za-z0-9_-]{48}$/`. -/
def matchesKeyPattern (rawKey : String) : Bool :=
  let secret := rawKey.toList.drop 8
  "ad_wiki_".isPrefixOf rawKey && secret.length == 48 &&
    secret.all fun c => ('A' ≤ c && c ≤ 'Z') || ('a' ≤ c && c ≤ 'z') || c.isDigit || c == '_' || c == '-'

/-- A pair of the catalog (`ApiKeyPermissionSchema`). -/
def parsePermission (pair : String × String) : Option Permission :=
  match parseResource pair.1, parseAction pair.2 with
  | some r, some a => if isPermissionSupported ⟨r, a⟩ then some ⟨r, a⟩ else none
  | _, _ => none

/-- `null` does not limit the key; a value that is not a list of pairs of the catalog allows nothing. -/
def parsePermissions : KeyPermissions → Option (List Permission)
  | .null => none
  | .entries pairs => some ((pairs.mapM parsePermission).getD [])
  | .other => some []

/-- `ApiKeysService.verify`. -/
def verifyApiKey (rawKey : String) : Option VerifiedApiKey :=
  if ¬matchesKeyPattern rawKey then none
  else do
    let row ← credentials.apiKeys.find (env.hash rawKey)
    let (user, role) ← d.findUser row.userId
    if ¬row.isActive ∨ row.expiresAt.any (· ≤ now) ∨ ¬user.isActive ∨ ¬env.compare rawKey row.keyHash then none
    else
      let permissions := parsePermissions row.permissions
      some
        { apiKeyId := row.id
          permissions := permissions
          user := Directory.keyActor user role row.id permissions }

end Verify

/-! ## The lists of entries -/

variable {d : Directory} {p : Permission} {roleId userId : String} {user : User} {role : Role}

theorem Directory.findUser_eq_some : d.findUser userId = some (user, role) ↔
    d.users.find userId = some user ∧ d.roles.find user.roleId = some role := by
  simp only [findUser, Option.bind_eq_bind, Option.bind_eq_some_iff, Option.pure_def, Option.some.injEq, Prod.mk.injEq]
  constructor
  · rintro ⟨_, hu, _, hr, rfl, rfl⟩
    exact ⟨hu, hr⟩
  · rintro ⟨hu, hr⟩
    exact ⟨user, hu, role, hr, rfl, rfl⟩

theorem Directory.findUser_ids (h : d.findUser userId = some (user, role)) :
    user.id = userId ∧ role.id = user.roleId := by
  obtain ⟨hu, hr⟩ := findUser_eq_some.mp h
  exact ⟨(Table.find_eq_some.mp hu).2, (Table.find_eq_some.mp hr).2⟩

section Entries

variable {ρ β : Type} {rows : List ρ} {resource action : ρ → String} {allowed : ρ → Bool} {f : AclEntry → β} {v : β}

/-- Rows with different pairs of texts are read as entries with different keys. -/
theorem nodup_entryKeys (hrows : (rows.map fun r => (resource r, action r)).Nodup) :
    (((rows.filterMap fun r => parseAclEntry (resource r) (action r) (allowed r)).map fun e =>
      (e.permission.key, f e)).map Prod.fst).Nodup := by
  rw [List.map_map, List.Nodup, List.pairwise_map, List.pairwise_filterMap]
  rw [List.Nodup, List.pairwise_map] at hrows
  refine hrows.imp fun {r r'} hne e he e' he' hkey => hne ?_
  obtain ⟨hr, ha, -⟩ := parseAclEntry_eq_some.mp he
  obtain ⟨hr', ha', -⟩ := parseAclEntry_eq_some.mp he'
  rw [← hr, ← ha, ← hr', ← ha', key_inj.mp hkey]

/-- The last entry for a pair of the catalog is that of its row. -/
theorem lookup_entries (hrows : (rows.map fun r => (resource r, action r)).Nodup) (hp : isPermissionSupported p = true) :
    ((rows.filterMap fun r => parseAclEntry (resource r) (action r) (allowed r)).map fun e =>
      (e.permission.key, f e)).reverse.lookup p.key = some v ↔
      ∃ r ∈ rows, resource r = p.resource.text ∧ action r = p.action.text ∧ f ⟨p, allowed r⟩ = v := by
  rw [OrderedMap.lookup_reverse (nodup_entryKeys hrows)]
  simp only [List.mem_map, List.mem_filterMap, Prod.mk.injEq, key_inj]
  constructor
  · rintro ⟨e, ⟨r, hr, he⟩, rfl, rfl⟩
    obtain ⟨hres, hact, -, hallowed⟩ := parseAclEntry_eq_some.mp he
    exact ⟨r, hr, hres.symm, hact.symm, by rw [← hallowed]⟩
  · rintro ⟨r, hr, hres, hact, rfl⟩
    exact ⟨⟨p, allowed r⟩, ⟨r, hr, parseAclEntry_eq_some.mpr ⟨hres.symm, hact.symm, hp, rfl⟩⟩, rfl, rfl⟩

end Entries

/-- The rows of one owner have different pairs. -/
theorem nodup_pairs {ρ : Type} {rows : List ρ} {k resource action : ρ → String} {x : String}
    (h : (rows.map fun r => (k r, resource r, action r)).Nodup) :
    ((rows.filter fun r => k r == x).map fun r => (resource r, action r)).Nodup := by
  rw [List.Nodup, List.pairwise_map] at h ⊢
  refine (List.pairwise_filter.mpr) (h.imp fun {r r'} hne hr hr' hpair => hne ?_)
  rw [beq_iff_eq.mp hr, beq_iff_eq.mp hr']
  exact congrArg (Prod.mk x) hpair

theorem lookup_aclEntries {β : Type} {f : AclEntry → β} (hp : isPermissionSupported p = true) :
    ((d.aclEntries roleId).map fun e => (e.permission.key, f e)).reverse.lookup p.key =
      (d.acl roleId p).map fun allowed => f ⟨p, allowed⟩ := by
  refine Option.ext fun v => ?_
  have hrows : ((d.acls.rows.filter fun row => row.roleId == roleId).map fun row => (row.resource, row.action)).Nodup :=
    nodup_pairs (k := Acl.roleId) d.acls.unique
  refine (lookup_entries hrows hp).trans ?_
  simp only [Directory.acl, Option.map_map, Option.map_eq_some_iff, Table.find_eq_some, List.mem_filter, beq_iff_eq,
    Acl.key, Prod.mk.injEq, Table.mem_def]
  constructor
  · rintro ⟨row, ⟨hrow, hrole⟩, hres, hact, hv⟩
    exact ⟨row, ⟨hrow, hrole, hres, hact⟩, hv⟩
  · rintro ⟨row, ⟨hrow, hrole, hres, hact⟩, hv⟩
    exact ⟨row, ⟨hrow, hrole⟩, hres, hact, hv⟩

theorem lookup_userEntries {β : Type} {f : AclEntry → β} (hp : isPermissionSupported p = true) :
    ((d.userEntries userId).map fun e => (e.permission.key, f e)).reverse.lookup p.key =
      (d.override userId p).map fun allowed => f ⟨p, allowed⟩ := by
  refine Option.ext fun v => ?_
  have hrows : ((d.permissions.rows.filter fun row => row.userId == userId).map fun row =>
      (row.resource, row.action)).Nodup :=
    nodup_pairs (k := UserPermission.userId) d.permissions.unique
  refine (lookup_entries hrows hp).trans ?_
  simp only [Directory.override, Option.map_map, Option.map_eq_some_iff, Table.find_eq_some, List.mem_filter, beq_iff_eq,
    UserPermission.key, Prod.mk.injEq, Table.mem_def]
  constructor
  · rintro ⟨row, ⟨hrow, huser⟩, hres, hact, hv⟩
    exact ⟨row, ⟨hrow, huser, hres, hact⟩, hv⟩
  · rintro ⟨row, ⟨hrow, huser, hres, hact⟩, hv⟩
    exact ⟨row, ⟨hrow, huser⟩, hres, hact, hv⟩

/-- What the map of a role and a user has for a pair of the catalog. -/
theorem get?_overlay {β : Type} {f : AclEntry → β} (hp : isPermissionSupported p = true) :
    (d.overlay f roleId userId).get? p.key =
      ((d.override userId p).or (d.acl roleId p)).map fun allowed => f ⟨p, allowed⟩ := by
  rw [Directory.overlay, OrderedMap.get?_setAll, OrderedMap.get?_setAll, OrderedMap.get?_empty, Option.or_none,
    lookup_userEntries hp, lookup_aclEntries hp]
  cases d.override userId p <;> rfl

/-- An entry of the map stands under its own key. -/
theorem overlay_key {key : String} {e : AclEntry} (h : (d.overlay id roleId userId).get? key = some e) :
    key = e.permission.key := by
  have hown : ∀ {l : List AclEntry}, (l.map fun e => (e.permission.key, id e)).reverse.lookup key = some e →
      key = e.permission.key := by
    intro l hl
    obtain ⟨l₁, l₂, hsplit, -⟩ := List.lookup_eq_some_iff.mp hl
    have hmem : (key, e) ∈ (l.map fun e => (e.permission.key, id e)).reverse := by
      rw [hsplit]
      simp
    obtain ⟨e', -, he'⟩ := List.mem_map.mp (List.mem_reverse.mp hmem)
    cases he'
    rfl
  rw [Directory.overlay, OrderedMap.get?_setAll, OrderedMap.get?_setAll, OrderedMap.get?_empty, Option.or_none] at h
  rcases Option.or_eq_some_iff.mp h with h | ⟨-, h⟩
  · exact hown h
  · exact hown h

end AdWiki.Access
