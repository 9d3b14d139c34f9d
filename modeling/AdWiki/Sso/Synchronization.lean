import AdWiki.Lib.OrderedMap
import AdWiki.Sso.Claims

/-!
# Synchronising an identity

`IdentitySynchronizationService`: the groups and the role of an identity follow the values of its claims through the
mappings of its provider. `buildPreview` computes the changes, `apply` writes them in one transaction.
-/

namespace AdWiki.Sso

structure MappedGroup where
  mapping : IdentityProviderGroupMapping
  group : Group
  deriving DecidableEq, Repr

structure MappedRole where
  mapping : IdentityProviderRoleMapping
  role : Role
  deriving DecidableEq, Repr

/-- An identity with what `syncIdentityInclude` includes: `externalIdentities` has the ids of the identities of its
user, each with the priority of its role grant. -/
structure SyncIdentity where
  identity : ExternalIdentity
  provider : IdentityProvider
  groupMappings : List MappedGroup
  roleMappings : List MappedRole
  externalIdentities : List (String × Option Int)
  groupMembershipGrants : List (ExternalGroupMembershipGrant × MappedGroup)
  externalRoleGrant : Option MappedRole

/-- The group of a mapping, which cannot be deleted as long as the mapping is there. -/
def Db.mappedGroup (db : Db) (mapping : IdentityProviderGroupMapping) : MappedGroup :=
  ⟨mapping, (db.groups.find mapping.groupId).getD ⟨mapping.groupId, ""⟩⟩

/-- The role of a mapping, which cannot be deleted as long as the mapping is there. -/
def Db.mappedRole (db : Db) (mapping : IdentityProviderRoleMapping) : MappedRole :=
  ⟨mapping, (db.roles.find mapping.roleId).getD ⟨mapping.roleId, "", []⟩⟩

def Db.roleGrantOf (db : Db) (externalIdentityId : String) : Option MappedRole := do
  let grant ← db.roleGrants.find externalIdentityId
  let mapping ← db.roleMappings.find grant.roleMappingId
  return db.mappedRole mapping

/-- `externalIdentity.findUnique({ where: { id }, include: syncIdentityInclude })` -/
def Db.findIdentity (db : Db) (id : String) : Option SyncIdentity := do
  let identity ← db.identities.find id
  let provider ← db.providers.find identity.providerId
  return {
    identity := identity
    provider := provider
    groupMappings := (db.groupMappings.rows.filter fun mapping => mapping.providerId = provider.id).map db.mappedGroup
    roleMappings := (db.roleMappings.rows.filter fun mapping => mapping.providerId = provider.id).map db.mappedRole
    externalIdentities := (db.identities.rows.filter fun other => other.userId = identity.userId).map fun other =>
      (other.id, (db.roleGrantOf other.id).map fun role => role.mapping.priority)
    groupMembershipGrants :=
      (db.grants.rows.filter fun grant => grant.externalIdentityId = identity.id).filterMap fun grant =>
      (db.groupMappings.find grant.groupMappingId).map fun mapping => (grant, db.mappedGroup mapping)
    externalRoleGrant := db.roleGrantOf identity.id }

/-! ## Claims -/

section Claims

variable (env : Env)

def assertProviderClaimConfiguration (identity : SyncIdentity) : Except IdentitySyncErrorCode Unit :=
  if identity.provider.groupClaim.all (· = "") ∧
      (identity.groupMappings ≠ [] ∨ identity.groupMembershipGrants ≠ []) then .error .groupClaimInvalid
  else if identity.provider.roleClaim.all (· = "") ∧ identity.roleMappings.any fun role =>
    role.mapping.source = .role then
    .error .roleClaimInvalid
  else .ok ()

def normalizeProviderClaims (identity : SyncIdentity) (claims : List (String × Json)) :
    Except IdentitySyncErrorCode NormalizedClaims := do
  assertProviderClaimConfiguration identity
  let groups ← normalizeClaimValues env claims identity.provider.groupClaim .groupClaimInvalid
  let roles ← normalizeClaimValues env claims identity.provider.roleClaim .roleClaimInvalid
  return ⟨groups, roles⟩

end Claims

/-! ## The preview -/

structure IdentitySyncGroupChange where
  mappingId : String
  groupId : String
  groupName : String
  externalValue : String
  deriving DecidableEq, Repr

structure IdentitySyncRoleChange where
  mappingId : String
  roleId : String
  roleName : String
  priority : Int
  source : IdentityProviderRoleMappingSource
  externalValue : String
  deriving DecidableEq, Repr

structure IdentitySyncPreview where
  providerId : String
  externalIdentityId : String
  userId : String
  mode : IdentityProviderSyncMode
  normalizedClaims : NormalizedClaims
  add : List IdentitySyncGroupChange
  keep : List IdentitySyncGroupChange
  remove : List IdentitySyncGroupChange
  ignoredGroupValues : List String
  currentRole : Option IdentitySyncRoleChange
  nextRole : Option IdentitySyncRoleChange
  roleChanged : Bool
  ignoredRoleValues : List String
  deriving DecidableEq, Repr

def groupChange (mapped : MappedGroup) (externalValue : String) : IdentitySyncGroupChange :=
  ⟨mapped.mapping.id, mapped.mapping.groupId, mapped.group.name, externalValue⟩

/-- A change under the value that the mapping has itself. -/
def ownGroupChange (mapped : MappedGroup) : IdentitySyncGroupChange :=
  groupChange mapped (mapped.mapping.externalGroupPath.getD mapped.mapping.externalGroupId)

def roleChange (mapped : MappedRole) : IdentitySyncRoleChange :=
  ⟨mapped.mapping.id, mapped.role.id, mapped.role.name, mapped.mapping.priority, mapped.mapping.source,
    mapped.mapping.externalValue⟩

def privilegedRoleResources : List String :=
  ["users", "roles", "acls", "user_permissions", "groups", "settings", "audit_logs", "api_keys", "smtp", "system_info",
    "backups", "resource_acls"]

/-- Only the letters of "admin" have it as their lower-case form. -/
def isPrivilegedRole (role : Role) : Bool :=
  role.name.toLower = "admin" || role.acls.any fun resource => privilegedRoleResources.contains resource

def matchesValue (mapped : MappedGroup) (value : String) : Bool :=
  mapped.mapping.externalGroupId = value || mapped.mapping.externalGroupPath = some value

/-- The loop over the values: each with the one mapping that it matches. -/
def matchGroups (groupMappings : List MappedGroup) :
    List String → Except IdentitySyncErrorCode (List (String × MappedGroup))
  | [] => .ok []
  | value :: values =>
    match groupMappings.filter fun mapped => matchesValue mapped value with
    | [] => matchGroups groupMappings values
    | [mapped] => (matchGroups groupMappings values).map ((value, mapped) :: ·)
    | _ => .error .groupMappingAmbiguous

structure TargetGroup where
  change : IdentitySyncGroupChange
  membershipExists : Bool

/-- `targetGroups`, by the id of the mapping. -/
def targetGroups (identity : SyncIdentity) (matched : List (String × MappedGroup)) : OrderedMap String TargetGroup :=
  OrderedMap.empty.setAll (matched.map fun m => (m.2.mapping.id,
    ⟨groupChange m.2 m.1, identity.groupMembershipGrants.any fun g => g.1.groupMappingId = m.2.mapping.id⟩))

section Preview

variable (env : Env)

/-- `left.groupName.localeCompare(right.groupName) || left.groupId.localeCompare(right.groupId)` -/
def groupChangeLe (left right : IdentitySyncGroupChange) : Bool :=
  let byName := env.localeCompare left.groupName right.groupName
  if byName ≠ 0 then byName ≤ 0 else env.localeCompare left.groupId right.groupId ≤ 0

def sortGroupChanges (changes : List IdentitySyncGroupChange) : List IdentitySyncGroupChange :=
  changes.insertionSort fun left right => groupChangeLe env left right = true

def matchingRoleLe (left right : MappedRole) : Bool :=
  if left.mapping.priority ≠ right.mapping.priority then left.mapping.priority ≤ right.mapping.priority
  else env.localeCompare left.mapping.id right.mapping.id ≤ 0

/-- The mappings of roles that a value matches, in order of priority. -/
def matchingRoles (identity : SyncIdentity) (claims : NormalizedClaims) : List MappedRole :=
  (identity.roleMappings.filter fun mapped =>
    match mapped.mapping.source with
    | .group => claims.groups.contains mapped.mapping.externalValue
    | .role => claims.roles.contains mapped.mapping.externalValue).insertionSort
      fun left right => matchingRoleLe env left right = true

/-- The mapping that decides on the role, if the priorities leave one and it may be used. -/
def nextMatch (identity : SyncIdentity) (claims : NormalizedClaims) : Except IdentitySyncErrorCode (Option MappedRole) :=
  match matchingRoles env identity claims with
  | [] => .ok none
  | next :: others =>
    if others.any fun other => other.mapping.priority = next.mapping.priority then .error .rolePriorityConflict
    else if !identity.provider.allowAdminRoleMapping && isPrivilegedRole next.role then .error .adminRoleMappingDisabled
    else if identity.externalIdentities.any fun other =>
        other.1 ≠ identity.identity.id && other.2 = some next.mapping.priority then .error .rolePriorityConflict
    else .ok (some next)

def buildPreview (identity : SyncIdentity) (claims : NormalizedClaims) :
    Except IdentitySyncErrorCode IdentitySyncPreview := do
  let matched ← matchGroups identity.groupMappings claims.groups
  let targets := targetGroups identity matched
  let grants := identity.groupMembershipGrants
  let addOnly := identity.provider.groupSyncMode = .addOnly
  let next ← nextMatch env identity claims
  let mappedRoleValues := (matchingRoles env identity claims).map fun mapped => mapped.mapping.externalValue
  return {
    providerId := identity.identity.providerId
    externalIdentityId := identity.identity.id
    userId := identity.identity.userId
    mode := identity.provider.groupSyncMode
    normalizedClaims := claims
    add := sortGroupChanges env ((targets.values.filter fun target => !target.membershipExists).map (·.change))
    keep :=
      sortGroupChanges env ((grants.filter fun g => addOnly || (targets.get? g.1.groupMappingId).isSome).map fun g =>
      ((targets.get? g.1.groupMappingId).map (·.change)).getD (ownGroupChange g.2))
    remove := sortGroupChanges env
      (if addOnly then [] else
        (grants.filter fun g => (targets.get? g.1.groupMappingId).isNone).map fun g => ownGroupChange g.2)
    ignoredGroupValues := claims.groups.filter fun value => !(matched.map (·.1)).contains value
    currentRole := identity.externalRoleGrant.map roleChange
    nextRole := next.map roleChange
    roleChanged := identity.externalRoleGrant.map (fun role => role.mapping.id) ≠ next.map fun role => role.mapping.id
    ignoredRoleValues := (Js.distinct (claims.groups ++ claims.roles)).filter fun value =>
      !mappedRoleValues.contains value }

end Preview

/-! ## The transaction -/

/-- The outside choices of a synchronisation: whether the transaction is aborted, the ids of new memberships, the
clock. -/
structure Choice where
  aborted : Bool
  membershipId : Nat → String
  now : Time

inductive SyncError
  | notFound
  | sync (code : IdentitySyncErrorCode)
  | failed
  deriving DecidableEq, Repr

/-- The membership of the user in the group, created where there is none. -/
def ensureMembership (db : Db) (groupId userId newId : String) : Option (Db × String) :=
  match db.memberships.rows.find? fun m => m.groupId = groupId && m.userId = userId with
  | some membership => some (db, membership.id)
  | none =>
    (db.memberships.createMany [⟨newId, groupId, userId, .member, false⟩]).map fun memberships =>
      ({ db with memberships := memberships }, newId)

/-- The loop over `preview.groups.add`. -/
def addGroups (externalIdentityId userId : String) (membershipId : Nat → String) :
    List IdentitySyncGroupChange → Nat → Db → Option Db
  | [], _, db => some db
  | change :: changes, n, db => do
    let (db, membership) ← ensureMembership db change.groupId userId (membershipId n)
    let db ← db.createGrant ⟨externalIdentityId, change.mappingId, membership⟩
    addGroups externalIdentityId userId membershipId changes (n + 1) db

/-- `{ id: { in: removedMembershipIds }, hasLocalGrant: false, externalGrants: { none: {} } }` -/
def unjustified (removedMembershipIds : List String) (db : Db) (membership : GroupMembership) : Bool :=
  removedMembershipIds.contains membership.id && !membership.hasLocalGrant &&
    !db.grants.rows.any fun grant => grant.membershipId = membership.id

/-- The deletes for `preview.groups.remove`. -/
def removeGroups (externalIdentityId : String) (removedMembershipIds : List String)
    (remove : List IdentitySyncGroupChange) (db : Db) : Db :=
  if remove = [] then db
  else
    let db := db.deleteGrants fun grant =>
      grant.externalIdentityId = externalIdentityId && remove.any fun change => change.mappingId = grant.groupMappingId
    db.deleteMemberships (unjustified removedMembershipIds db)

/-- The upsert or the delete of the role grant. -/
def changeRole (preview : IdentitySyncPreview) (db : Db) : Option Db :=
  if !preview.roleChanged then some db
  else
    let others := db.roleGrants.deleteMany (·.externalIdentityId = preview.externalIdentityId)
    match preview.nextRole with
    | none => some { db with roleGrants := others }
    | some next =>
      (others.createMany [⟨preview.externalIdentityId, next.mappingId, next.roleId⟩]).map fun roleGrants =>
        { db with roleGrants := roleGrants }

/-- The outcome of the synchronisation in the row of the identity. -/
def recordSuccess (id : String) (claims : NormalizedClaims) (now : Time) (db : Db) : Db :=
  { db with
    identities := db.identities.updateMany (·.id = id)
      (fun row => { row with
        lastGroupClaims := claims.groups
        lastRoleClaims := claims.roles
        lastGroupSyncAt := some now
        lastSyncErrorCode := none })
      fun _ => rfl }

def recordFailure (id : String) (error : SyncError) (db : Db) : Db :=
  let code := match error with
    | .sync code => code.text
    | _ => "sync_failed"
  { db with
    identities := db.identities.updateMany (·.id = id) (fun row => { row with lastSyncErrorCode := some code })
      fun _ => rfl }

/-- The memberships of the grants that the preview removes. -/
def removedMembershipIds (identity : SyncIdentity) (preview : IdentitySyncPreview) : List String :=
  (identity.groupMembershipGrants.filter fun g =>
    preview.remove.any fun change => change.mappingId = g.1.groupMappingId).map fun g => g.1.membershipId

section Service

variable (env : Env)

/-- The transaction of `apply`. -/
def transaction (db : Db) (id : String) (claims : NormalizedClaims) (c : Choice) :
    Except SyncError (Db × IdentitySyncPreview) :=
  if c.aborted then .error .failed
  else
    match db.findIdentity id with
    | none => .error .notFound
    | some identity =>
      match buildPreview env identity claims with
      | .error code => .error (.sync code)
      | .ok preview =>
        let written := (addGroups id identity.identity.userId c.membershipId preview.add 0 db).bind fun db =>
          changeRole preview (removeGroups id (removedMembershipIds identity preview) preview.remove db)
        match written with
        | none => .error .failed
        | some db => .ok (recordSuccess id claims c.now db, preview)

def apply (db : Db) (id : String) (claims : NormalizedClaims) (c : Choice) : Db × Except SyncError IdentitySyncPreview :=
  match transaction env db id claims c with
  | .error error => (recordFailure id error db, .error error)
  | .ok (db, preview) => (db, .ok preview)

def synchronize (db : Db) (externalIdentityId : String) (claims : List (String × Json)) (c : Choice) :
    Db × Except SyncError IdentitySyncPreview :=
  match db.findIdentity externalIdentityId with
  | none => (db, .error .notFound)
  | some identity =>
    match normalizeProviderClaims env identity claims with
    | .error code => (recordFailure externalIdentityId (.sync code) db, .error (.sync code))
    | .ok normalized => apply env db externalIdentityId normalized c

/-- The synchronisation with the claims of the last one. -/
def synchronizeStored (db : Db) (externalIdentityId : String) (c : Choice) : Db × Except SyncError IdentitySyncPreview :=
  match db.findIdentity externalIdentityId with
  | none => (db, .error .notFound)
  | some identity =>
    match assertProviderClaimConfiguration identity with
    | .error code => (recordFailure externalIdentityId (.sync code) db, .error (.sync code))
    | .ok _ =>
      apply env db externalIdentityId ⟨identity.identity.lastGroupClaims, identity.identity.lastRoleClaims⟩ c

end Service

end AdWiki.Sso
