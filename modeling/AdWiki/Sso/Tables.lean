import AdWiki.Common.Http
import AdWiki.Lib.Table

/-!
# The tables of external sign-in

Providers, the identities of users at them, the mappings from a provider's groups and roles to those of the knowledge
base, and the grants that a synchronisation writes. A delete takes the rows with it that refer to what it deletes
(`onDelete: Cascade`).
-/

namespace AdWiki.Sso

inductive IdentityProviderSyncMode
  | managed
  | addOnly
  deriving DecidableEq, Repr

inductive IdentityProviderRoleMappingSource
  | group
  | role
  deriving DecidableEq, Repr

inductive GroupMembershipRole
  | member
  | manager
  deriving DecidableEq, Repr

structure User where
  id : String
  email : String
  username : String
  isActive : Bool
  isProtected : Bool
  hasLocalPassword : Bool
  deriving DecidableEq, Repr

structure Group where
  id : String
  name : String
  deriving DecidableEq, Repr

/-- A role with the resources of its allowing entries. -/
structure Role where
  id : String
  name : String
  acls : List String
  deriving DecidableEq, Repr

structure IdentityProvider where
  id : String
  name : String
  isActive : Bool
  groupSyncMode : IdentityProviderSyncMode
  groupClaim : Option String
  roleClaim : Option String
  allowAdminRoleMapping : Bool
  deriving DecidableEq, Repr

structure ExternalIdentity where
  id : String
  providerId : String
  userId : String
  issuer : String
  subject : String
  email : Option String
  username : Option String
  displayName : Option String
  lastLoginAt : Option Time
  lastGroupSyncAt : Option Time
  lastSyncErrorCode : Option String
  lastGroupClaims : List String
  lastRoleClaims : List String
  deriving DecidableEq, Repr

structure IdentityProviderGroupMapping where
  id : String
  providerId : String
  externalGroupId : String
  externalGroupPath : Option String
  groupId : String
  deriving DecidableEq, Repr

structure IdentityProviderRoleMapping where
  id : String
  providerId : String
  source : IdentityProviderRoleMappingSource
  externalValue : String
  priority : Int
  roleId : String
  deriving DecidableEq, Repr

structure GroupMembership where
  id : String
  groupId : String
  userId : String
  role : GroupMembershipRole
  hasLocalGrant : Bool
  deriving DecidableEq, Repr

structure ExternalGroupMembershipGrant where
  externalIdentityId : String
  groupMappingId : String
  membershipId : String
  deriving DecidableEq, Repr

structure ExternalRoleGrant where
  externalIdentityId : String
  roleMappingId : String
  roleId : String
  deriving DecidableEq, Repr

/-- `@@unique([externalIdentityId, groupMappingId])` -/
def ExternalGroupMembershipGrant.key (grant : ExternalGroupMembershipGrant) : String × String :=
  (grant.externalIdentityId, grant.groupMappingId)

structure Db where
  users : Table User.id
  groups : Table Group.id
  roles : Table Role.id
  providers : Table IdentityProvider.id
  identities : Table ExternalIdentity.id
  groupMappings : Table IdentityProviderGroupMapping.id
  roleMappings : Table IdentityProviderRoleMapping.id
  memberships : Table GroupMembership.id
  grants : Table ExternalGroupMembershipGrant.key
  roleGrants : Table ExternalRoleGrant.externalIdentityId
  /-- The foreign key through which a synchronisation reads its grants. -/
  grantMapping : ∀ grant ∈ grants, ∃ mapping, groupMappings.find grant.groupMappingId = some mapping

namespace Db

/-- The row is refused where its mapping is not there or has a grant already. -/
def createGrant (db : Db) (grant : ExternalGroupMembershipGrant) : Option Db :=
  if hmapping : (db.groupMappings.find grant.groupMappingId).isSome then
    match hgrants : db.grants.createMany [grant] with
    | none => none
    | some grants =>
      some { db with
        grants := grants
        grantMapping := by
          intro g hg
          rcases (Table.mem_createMany hgrants).mp hg with hold | hnew
          · exact db.grantMapping g hold
          · rw [List.mem_singleton.mp hnew]
            exact Option.isSome_iff_exists.mp hmapping }
  else none

def deleteGrants (db : Db) (p : ExternalGroupMembershipGrant → Bool) : Db :=
  { db with
    grants := db.grants.deleteMany p
    grantMapping := fun g hg => db.grantMapping g (Table.mem_deleteMany.mp hg).1 }

def deleteMemberships (db : Db) (p : GroupMembership → Bool) : Db :=
  { db.deleteGrants fun grant => (db.memberships.find grant.membershipId).any p with
    memberships := db.memberships.deleteMany p }

def deleteIdentities (db : Db) (p : ExternalIdentity → Bool) : Db :=
  { db.deleteGrants fun grant => (db.identities.find grant.externalIdentityId).any p with
    identities := db.identities.deleteMany p
    roleGrants := db.roleGrants.deleteMany fun grant => (db.identities.find grant.externalIdentityId).any p }

def deleteGroupMappings (db : Db) (p : IdentityProviderGroupMapping → Bool) : Db :=
  { db with
    groupMappings := db.groupMappings.deleteMany p
    grants := db.grants.deleteMany fun grant => (db.groupMappings.find grant.groupMappingId).any p
    grantMapping := by
      intro g hg
      obtain ⟨hg, hkept⟩ := Table.mem_deleteMany.mp hg
      obtain ⟨mapping, hfind⟩ := db.grantMapping g hg
      rw [hfind, Option.any_some] at hkept
      exact ⟨mapping, by rw [Table.find_deleteMany, hfind, Option.filter_some, hkept]; rfl⟩ }

def deleteRoleMappings (db : Db) (p : IdentityProviderRoleMapping → Bool) : Db :=
  { db with
    roleMappings := db.roleMappings.deleteMany p
    roleGrants := db.roleGrants.deleteMany fun grant => (db.roleMappings.find grant.roleMappingId).any p }

/-- `DELETE FROM identity_providers WHERE id = …` -/
def deleteProvider (db : Db) (id : String) : Db :=
  let db := db.deleteIdentities (·.providerId = id)
  let db := db.deleteGroupMappings (·.providerId = id)
  let db := db.deleteRoleMappings (·.providerId = id)
  { db with providers := db.providers.deleteMany (·.id = id) }

end Db

variable {db db' : Db} {grant : ExternalGroupMembershipGrant}

/-- Tables that grants and memberships refer to, and the roles, are as they were. -/
structure SameMappings (db db' : Db) : Prop where
  users : db'.users = db.users
  groups : db'.groups = db.groups
  roles : db'.roles = db.roles
  providers : db'.providers = db.providers
  groupMappings : db'.groupMappings = db.groupMappings
  roleMappings : db'.roleMappings = db.roleMappings

theorem SameMappings.refl (db : Db) : SameMappings db db := ⟨rfl, rfl, rfl, rfl, rfl, rfl⟩

theorem SameMappings.trans {db'' : Db} (h : SameMappings db db') (h' : SameMappings db' db'') : SameMappings db db'' :=
  ⟨h'.users.trans h.users, h'.groups.trans h.groups, h'.roles.trans h.roles, h'.providers.trans h.providers,
    h'.groupMappings.trans h.groupMappings, h'.roleMappings.trans h.roleMappings⟩

/-- A new grant leaves the other tables. -/
theorem Db.createGrant_eq_some (h : db.createGrant grant = some db') :
    (∀ g, g ∈ db'.grants ↔ g ∈ db.grants ∨ g = grant) ∧ db'.memberships = db.memberships ∧ SameMappings db db' ∧
      db'.identities = db.identities ∧ db'.roleGrants = db.roleGrants := by
  unfold Db.createGrant at h
  split at h
  · split at h
    · cases h
    · next grants hgrants =>
      cases h
      refine ⟨fun g => ?_, rfl, ⟨rfl, rfl, rfl, rfl, rfl, rfl⟩, rfl, rfl⟩
      rw [← List.mem_singleton (a := g)]
      exact Table.mem_createMany hgrants
  · cases h

theorem Db.mem_deleteGrants {p : ExternalGroupMembershipGrant → Bool} :
    grant ∈ (db.deleteGrants p).grants ↔ grant ∈ db.grants ∧ p grant = false := Table.mem_deleteMany

/-- A delete of memberships that no grant refers to takes no grant with it. -/
theorem Db.mem_deleteMemberships {p : GroupMembership → Bool}
    (h : ∀ membership, p membership = true → ∀ grant ∈ db.grants, grant.membershipId ≠ membership.id) :
    grant ∈ (db.deleteMemberships p).grants ↔ grant ∈ db.grants := by
  unfold deleteMemberships
  rw [show grant ∈ Db.grants _ ↔ _ from Db.mem_deleteGrants]
  refine ⟨fun hg => hg.1, fun hg => ⟨hg, ?_⟩⟩
  rw [Bool.eq_false_iff]
  intro hany
  obtain ⟨membership, hfind, hp⟩ := (Option.any_eq_true _ _).mp hany
  exact h membership hp grant hg (Table.find_eq_some.mp hfind).2.symm

end AdWiki.Sso
