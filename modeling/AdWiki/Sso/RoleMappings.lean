import AdWiki.Access.Delegation
import AdWiki.Sso.Memberships

/-!
# Role mappings

The calls that decide which role a user has through a provider: the administration of providers and their role mappings
(`IdentityProviderAdminService`), the permissions of a role (`AclsService.setRoleAcls`), linking and unlinking an
identity (`OidcService`), and the synchronisation. What the checks of a call read outside these tables (client secrets,
the default role for new accounts, the permissions of the actor) is left to its `accepted`.
-/

namespace AdWiki.Sso

/-! ## Linking -/

structure MappedOidcProfile where
  subject : String
  email : Option String
  username : Option String
  displayName : Option String
  deriving DecidableEq, Repr

def externalProfileUpdate (profile : MappedOidcProfile) (now : Time) (row : ExternalIdentity) : ExternalIdentity :=
  { row with
    email := profile.email
    username := profile.username
    displayName := profile.displayName
    lastLoginAt := some now
    lastSyncErrorCode := none }

/-- The row that `linkIdentity` creates. -/
def linkedIdentity (id providerId userId issuer : String) (profile : MappedOidcProfile) (now : Time) :
    ExternalIdentity where
  id := id
  providerId := providerId
  userId := userId
  issuer := issuer
  subject := profile.subject
  email := profile.email
  username := profile.username
  displayName := profile.displayName
  lastLoginAt := some now
  lastGroupSyncAt := none
  lastSyncErrorCode := none
  lastGroupClaims := []
  lastRoleClaims := []

def linkIdentity (db : Db) (providerId userId issuer : String) (profile : MappedOidcProfile) (now : Time)
    (newId : String) :
    Except HttpError Db :=
  if !(db.users.find userId).any fun user => user.isActive && !user.isProtected then .error (.oidc "account_unavailable")
  else
    let claimed := db.identities.rows.find? fun row =>
      row.providerId = providerId && row.issuer = issuer && row.subject = profile.subject
    if claimed.any fun row => row.userId ≠ userId then .error (.oidc "account_conflict")
    else
      let providerLink := db.identities.rows.find? fun row => row.providerId = providerId && row.userId = userId
      if providerLink.any fun row => row.issuer ≠ issuer || row.subject ≠ profile.subject then
        .error (.oidc "account_conflict")
      else
        match claimed with
        | some row =>
          .ok { db with
            identities := db.identities.updateMany (·.id = row.id) (externalProfileUpdate profile now) fun _ => rfl }
        | none =>
          if (db.providers.find providerId).isNone then .error .foreignKey
          else
            match db.identities.createMany [linkedIdentity newId providerId userId issuer profile now] with
            | none => .error (.oidc "account_conflict")
            | some identities => .ok { db with identities := identities }

/-! ## Administration -/

structure CreateIdentityProviderRoleMappingInput where
  source : IdentityProviderRoleMappingSource
  externalValue : String
  roleId : String
  priority : Int
  deriving DecidableEq, Repr

/-- `@@unique([providerId, source, externalValue])` and `@@unique([providerId, priority])` -/
def collidesWith (providerId : String) (input : CreateIdentityProviderRoleMappingInput)
    (row : IdentityProviderRoleMapping) :
    Bool :=
  row.providerId = providerId &&
    (row.source = input.source && row.externalValue = input.externalValue || row.priority = input.priority)

def providerNotFound : HttpError := .notFound "SSO-Anbieter nicht gefunden."

def mappingConflict : HttpError := .conflict "Dieser externe Wert oder diese Priorität ist bereits zugeordnet."

def createRoleMapping (db : Db) (providerId : String) (input : CreateIdentityProviderRoleMappingInput) (newId : String) :
    Except HttpError Db :=
  if (db.providers.find providerId).isNone then .error providerNotFound
  else if (db.roles.find input.roleId).isNone then .error .foreignKey
  else if db.roleMappings.rows.any (collidesWith providerId input) then .error mappingConflict
  else
    match db.roleMappings.createMany
      [⟨newId, providerId, input.source, input.externalValue, input.priority, input.roleId⟩] with
    | none => .error mappingConflict
    | some roleMappings => .ok { db with roleMappings := roleMappings }

def removeRoleMapping (db : Db) (providerId mappingId : String) : Except HttpError Db :=
  match (db.roleMappings.find mappingId).filter fun mapping => mapping.providerId = providerId with
  | none => .error (.notFound "Rollen-Mapping nicht gefunden.")
  | some mapping => .ok (db.deleteRoleMappings (·.id = mapping.id))

/-- A field is `none` where the request leaves it out. -/
structure UpdateIdentityProviderInput where
  name : Option String
  isActive : Option Bool
  confirmLastActiveProvider : Bool
  groupSyncMode : Option IdentityProviderSyncMode
  groupClaim : Option (Option String)
  roleClaim : Option (Option String)
  allowAdminRoleMapping : Option Bool
  deriving DecidableEq, Repr

def IdentityProvider.write (input : UpdateIdentityProviderInput) (row : IdentityProvider) : IdentityProvider :=
  { row with
    name := input.name.getD row.name
    isActive := input.isActive.getD row.isActive
    groupSyncMode := input.groupSyncMode.getD row.groupSyncMode
    groupClaim := input.groupClaim.getD row.groupClaim
    roleClaim := input.roleClaim.getD row.roleClaim
    allowAdminRoleMapping := input.allowAdminRoleMapping.getD row.allowAdminRoleMapping }

/-- `IdentityProviderAdminService.update` -/
def updateProvider (db : Db) (id : String) (input : UpdateIdentityProviderInput) (accepted : Bool) :
    Except HttpError Db :=
  match db.providers.find id with
  | none => .error providerNotFound
  | some current =>
    if current.isActive ∧ input.isActive = some false ∧ input.confirmLastActiveProvider = false ∧
      activeProviderCount db = 1 then
      .error (.conflict "Der letzte aktive SSO-Anbieter muss ausdrücklich bestätigt werden.")
    else if accepted = false then .error (.badRequest "")
    else .ok { db with providers := db.providers.updateMany (·.id = id) (IdentityProvider.write input) fun _ => rfl }

/-- The resources of the entries that allow something. -/
def allowedResources (entries : List Access.AclEntry) : List String :=
  ((Access.dedupe entries).filter (·.allowed)).map fun entry => entry.permission.resource.text

/-- `AclsService.setRoleAcls` -/
def setRoleAcls (db : Db) (roleId : String) (entries : List Access.AclEntry) (accepted : Bool) : Except HttpError Db :=
  if (db.roles.find roleId).isNone then .error (.notFound "Rolle nicht gefunden.")
  else if accepted = false then
    .error (.forbidden "Du kannst nur Berechtigungen vergeben, die du selbst besitzt.")
  else
    .ok { db with
      roles := db.roles.updateMany (·.id = roleId) (fun role => { role with acls := allowedResources entries })
        fun _ => rfl }

/-! ## The synchronisation, of new claims or of stored ones -/

/-- Where the claims of a synchronisation come from. -/
inductive ClaimSource
  | received (claims : List (String × Json))
  | stored

section Sync

variable (env : Env)

def ClaimSource.normalized (identity : SyncIdentity) : ClaimSource → Except IdentitySyncErrorCode NormalizedClaims
  | .received claims => normalizeProviderClaims env identity claims
  | .stored => (assertProviderClaimConfiguration identity).map fun _ =>
    ⟨identity.identity.lastGroupClaims, identity.identity.lastRoleClaims⟩

/-- `synchronize` and `synchronizeStored`. -/
def sync (db : Db) (id : String) (c : Choice) : ClaimSource → Db × Except SyncError IdentitySyncPreview
  | .received claims => synchronize env db id claims c
  | .stored => synchronizeStored env db id c

end Sync

/-! ## The calls -/

inductive RoleCall
  | sync (externalIdentityId : String) (source : ClaimSource) (c : Choice)
  | createRoleMapping (providerId : String) (input : CreateIdentityProviderRoleMappingInput) (newId : String)
  | removeRoleMapping (providerId mappingId : String)
  | updateProvider (id : String) (input : UpdateIdentityProviderInput) (accepted : Bool)
  | setRoleAcls (roleId : String) (entries : List Access.AclEntry) (accepted : Bool)
  | linkIdentity (providerId userId issuer : String) (profile : MappedOidcProfile) (now : Time) (newId : String)
  | unlinkIdentity (r : UnlinkRequest)

/-- The tables after a call; one that fails with an exception leaves them. -/
def performRole (env : Env) (db : Db) : RoleCall → Option Db
  | .sync id source c => some (sync env db id c source).1
  | .createRoleMapping providerId input newId => some ((createRoleMapping db providerId input newId).toOption.getD db)
  | .removeRoleMapping providerId mappingId => some ((removeRoleMapping db providerId mappingId).toOption.getD db)
  | .updateProvider id input accepted => some ((updateProvider db id input accepted).toOption.getD db)
  | .setRoleAcls roleId entries accepted => some ((setRoleAcls db roleId entries accepted).toOption.getD db)
  | .linkIdentity providerId userId issuer profile now newId =>
    some ((linkIdentity db providerId userId issuer profile now newId).toOption.getD db)
  | .unlinkIdentity r => some ((unlinkIdentity db r).toOption.getD db)

variable {env : Env} {db db' : Db} {id : String} {source : ClaimSource} {c : Choice}

/-! ## What the calls leave alone -/

/-- Identities are the same rows, up to what a synchronisation or a login records in them. -/
def SameIdentities (db db' : Db) : Prop :=
  ∀ id, (db'.identities.find id).map (fun row => (row.providerId, row.userId)) =
    (db.identities.find id).map fun row => (row.providerId, row.userId)

theorem SameIdentities.of_eq (h : db'.identities = db.identities) : SameIdentities db db' := fun id => by rw [h]

theorem sameIdentities_updateMany {p : ExternalIdentity → Bool} {f : ExternalIdentity → ExternalIdentity}
    (hid : ∀ row, (f row).id = row.id) (hprovider : ∀ row, (f row).providerId = row.providerId)
    (huser : ∀ row, (f row).userId = row.userId) (h : db'.identities = db.identities.updateMany p f hid) :
    SameIdentities db db' := by
  intro id
  rw [h, Table.find_updateMany, Option.map_map]
  congr 1
  funext row
  simp only [Function.comp_apply]
  split
  · rw [hprovider, huser]
  · rfl

theorem recordFailure_identities (db : Db) (id : String) (error : SyncError) :
    SameIdentities db (recordFailure id error db) := by
  unfold recordFailure
  dsimp only
  exact sameIdentities_updateMany (f := fun row => { row with lastSyncErrorCode := some _ }) (fun _ => rfl) (fun _ => rfl)
    (fun _ => rfl) rfl

/-- What a synchronisation without success leaves alone. -/
structure Unsynced (db db' : Db) : Prop where
  mappings : SameMappings db db'
  grants : SameGrants db db'
  identities : SameIdentities db db'

theorem Unsynced.refl (db : Db) : Unsynced db db := ⟨.refl db, .refl db, .of_eq rfl⟩

theorem unsynced_recordFailure (db : Db) (id : String) (error : SyncError) : Unsynced db (recordFailure id error db) :=
  ⟨⟨rfl, rfl, rfl, rfl, rfl, rfl⟩, ⟨rfl, rfl, rfl⟩, recordFailure_identities db id error⟩

/-- A call ends with the transaction, or with an error: of the claims, of the transaction, or for want of the identity. -/
inductive SyncOutcome (env : Env) (db : Db) (id : String) (source : ClaimSource) (c : Choice) :
    Db × Except SyncError IdentitySyncPreview → Prop
  | missing (h : db.findIdentity id = none) : SyncOutcome env db id source c (db, .error .notFound)
  | claims {identity : SyncIdentity} {code : IdentitySyncErrorCode} (h : db.findIdentity id = some identity)
    (hclaims : source.normalized env identity = .error code) :
    SyncOutcome env db id source c (recordFailure id (.sync code) db, .error (.sync code))
  | failed {identity : SyncIdentity} {claims : NormalizedClaims} {error : SyncError}
      (h : db.findIdentity id = some identity)
    (hclaims : source.normalized env identity = .ok claims) (hfailed : transaction env db id claims c = .error error) :
    SyncOutcome env db id source c (recordFailure id error db, .error error)
  | written {identity : SyncIdentity} {claims : NormalizedClaims} {db' : Db} {preview : IdentitySyncPreview}
    (h : db.findIdentity id = some identity) (hclaims : source.normalized env identity = .ok claims)
    (hwritten : transaction env db id claims c = .ok (db', preview)) : SyncOutcome env db id source c (db', .ok preview)

theorem syncOutcome_apply {identity : SyncIdentity} {claims : NormalizedClaims} (h : db.findIdentity id = some identity)
    (hclaims : source.normalized env identity = .ok claims) :
    SyncOutcome env db id source c (apply env db id claims c) := by
  unfold apply
  split
  · next error hfailed => exact .failed h hclaims hfailed
  · next db' preview hwritten => exact .written h hclaims hwritten

theorem syncOutcome_sync (env : Env) (db : Db) (id : String) (source : ClaimSource) (c : Choice) :
    SyncOutcome env db id source c (sync env db id c source) := by
  cases source with
  | received claims =>
    unfold sync synchronize
    dsimp only
    split
    · next hnone => exact .missing hnone
    · next identity hload =>
      split
      · next code hclaims => exact .claims hload hclaims
      · next normalized hclaims => exact syncOutcome_apply hload hclaims
  | stored =>
    unfold sync synchronizeStored
    dsimp only
    split
    · next hnone => exact .missing hnone
    · next identity hload =>
      split
      · next code hclaims => exact .claims hload (by rw [ClaimSource.normalized, hclaims]; rfl)
      · next hclaims => exact syncOutcome_apply hload (by rw [ClaimSource.normalized, hclaims]; rfl)

theorem transaction_identities {claims : NormalizedClaims} {preview : IdentitySyncPreview}
    (h : transaction env db id claims c = .ok (db', preview)) : SameIdentities db db' := by
  obtain ⟨identity, db₁, db₂, -, -, hadd, hrole, rfl⟩ := transaction_ok h
  have hidentities : db₂.identities = db.identities := by
    rw [(changeRole_eq_some hrole).2.2.2.2.2.2, removeGroups_same.2.1, (addGroups_added hadd).same.2.1]
  refine sameIdentities_updateMany (p := (·.id = id)) (f := fun row => { row with
      lastGroupClaims := claims.groups
      lastRoleClaims := claims.roles
      lastGroupSyncAt := some c.now
      lastSyncErrorCode := none }) (fun _ => rfl) (fun _ => rfl) (fun _ => rfl) ?_
  rw [← hidentities]
  rfl

end AdWiki.Sso
