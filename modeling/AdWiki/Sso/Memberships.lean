import AdWiki.Lib.Runs
import AdWiki.Sso.ExactSync

/-!
# Why a user is in a group

The calls that change memberships or the grants behind them: members of a group (`GroupsService`), the synchronisation,
and the removals that take grants with them by cascade: of a mapping, of a provider, of an identity. A membership is
justified by a local grant or by an external one.

* `justified_transaction`: a synchronisation leaves no membership without a reason.
* `memberships_justified_iff`: the runs in which every membership stays justified.
* `orphaned_by_mapping`: the removal of a mapping leaves one that is not.
-/

namespace AdWiki.Sso

/-! ## Members of a group -/

inductive MembershipAuthority
  | global
  | groupManager
  deriving DecidableEq, Repr

/-- `managesMembers` is `permissions.isAllowed(actor, "groups", "manage_members")`. -/
structure Actor where
  id : String
  isApiKey : Bool
  managesMembers : Bool
  deriving DecidableEq, Repr

def Db.membershipOf (db : Db) (groupId userId : String) : Option GroupMembership :=
  db.memberships.rows.find? fun m => m.groupId = groupId && m.userId = userId

def isGroupManager (db : Db) (groupId userId : String) : Bool :=
  (db.membershipOf groupId userId).any fun m => m.role = .manager && m.hasLocalGrant

def assertMayManageMembers (db : Db) (groupId : String) (actor : Actor) : Except HttpError MembershipAuthority :=
  if (db.groups.find groupId).isNone then .error (.notFound "Gruppe nicht gefunden.")
  else if actor.managesMembers then .ok .global
  else if !actor.isApiKey && isGroupManager db groupId actor.id then .ok .groupManager
  else .error (.forbidden "Du darfst die Mitglieder dieser Gruppe nicht verwalten.")

def findMembership (db : Db) (groupId userId : String) : Except HttpError GroupMembership :=
  match db.membershipOf groupId userId with
  | none => .error (.notFound "Der Benutzer ist kein Mitglied dieser Gruppe.")
  | some membership => .ok membership

/-- The checks of `addMember`. -/
def checkNewMember (db : Db) (groupId userId : String) (role : GroupMembershipRole) (actor : Actor) :
    Except HttpError Unit := do
  let authority ← assertMayManageMembers db groupId actor
  if authority = .groupManager ∧ role = .manager then
    .error (.forbidden "Gruppenverwalter dürfen keine weiteren Verwalter ernennen.")
  else
    match db.users.find userId with
    | none => .error (.notFound "Benutzer nicht gefunden.")
    | some user =>
      if user.isActive then .ok ()
      else .error (.badRequest "Deaktivierte Benutzer können keiner Gruppe hinzugefügt werden.")

/-- A membership that only external grants justify. -/
def upgradable (groupId userId : String) (m : GroupMembership) : Bool :=
  m.groupId = groupId && m.userId = userId && !m.hasLocalGrant

def Db.upgradeMembership (db : Db) (groupId userId : String) (role : GroupMembershipRole) : Db :=
  { db with
    memberships := db.memberships.updateMany (upgradable groupId userId)
      (fun m => { m with hasLocalGrant := true, role := role }) fun _ => rfl }

/-- `groupMembership.create`, where it violates no unique index. -/
def Db.createMembership (db : Db) (membership : GroupMembership) : Option Db :=
  if (db.membershipOf membership.groupId membership.userId).isSome then none
  else (db.memberships.createMany [membership]).map fun memberships => { db with memberships := memberships }

/-- A user who is already a member through external grants gets the local one too. -/
def addMember (db : Db) (groupId userId : String) (role : GroupMembershipRole) (actor : Actor) (newId : String) :
    Db × Except HttpError GroupMembership :=
  match checkNewMember db groupId userId role actor with
  | .error e => (db, .error e)
  | .ok _ =>
    match db.createMembership ⟨newId, groupId, userId, role, true⟩ with
    | some db' => (db', .ok ⟨newId, groupId, userId, role, true⟩)
    | none =>
      let upgraded := db.upgradeMembership groupId userId role
      if db.memberships.rows.countP (upgradable groupId userId) = 1 then
        (upgraded, findMembership upgraded groupId userId)
      else (upgraded, .error (.conflict "Der Benutzer ist bereits Mitglied dieser Gruppe."))

def updateMember (db : Db) (groupId userId : String) (role : GroupMembershipRole) (actor : Actor) :
    Except HttpError (Db × GroupMembership) := do
  let authority ← assertMayManageMembers db groupId actor
  if authority ≠ .global then
    .error (.forbidden "Nur die globale Gruppenverwaltung darf Gruppenverwalter ernennen oder abberufen.")
  else
    let existing ← findMembership db groupId userId
    if existing.hasLocalGrant then
      let membership := { existing with role := role }
      .ok ({ db with memberships := db.memberships.put membership }, membership)
    else
      .error (.conflict "Eine ausschließlich extern verwaltete Mitgliedschaft kann lokal keine Verwalterrolle erhalten.")

/-- `_count.externalGrants` -/
def Db.externalGrants (db : Db) (membership : GroupMembership) : Nat :=
  db.grants.rows.countP fun grant => grant.membershipId = membership.id

def removeMember (db : Db) (groupId userId : String) (actor : Actor) : Except HttpError (Db × GroupMembership) := do
  let authority ← assertMayManageMembers db groupId actor
  let existing ← findMembership db groupId userId
  if authority = .groupManager ∧ existing.role = .manager then
    .error (.forbidden "Gruppenverwalter dürfen keine Verwalter-Mitgliedschaft entfernen.")
  else if !existing.hasLocalGrant then
    .error (.conflict "Die Mitgliedschaft wird ausschließlich durch einen Identity Provider verwaltet.")
  else if db.externalGrants existing > 0 then
    .ok
      ({ db with memberships := db.memberships.put { existing with hasLocalGrant := false, role := .member } }, existing)
  else .ok (db.deleteMemberships (·.id = existing.id), existing)

/-! ## Removals -/

/-- The checks of `removeGroupMapping`. -/
def mappingTarget (db : Db) (providerId mappingId : String) : Except HttpError IdentityProviderGroupMapping :=
  match (db.groupMappings.find mappingId).filter fun mapping => mapping.providerId = providerId with
  | none => .error (.notFound "Gruppen-Mapping nicht gefunden.")
  | some mapping => .ok mapping

def removeGroupMapping (db : Db) (providerId mappingId : String) : Except HttpError Db :=
  (mappingTarget db providerId mappingId).map fun mapping => db.deleteGroupMappings (·.id = mapping.id)

def activeProviderCount (db : Db) : Nat := db.providers.rows.countP (·.isActive)

/-- The checks of `IdentityProviderAdminService.remove`. -/
def providerTarget (db : Db) (id : String) (confirmLastActiveProvider : Bool) : Except HttpError IdentityProvider :=
  match db.providers.find id with
  | none => .error (.notFound "SSO-Anbieter nicht gefunden.")
  | some provider =>
    if provider.isActive ∧ confirmLastActiveProvider = false ∧ activeProviderCount db = 1 then
      .error (.conflict "Das Löschen des letzten aktiven SSO-Anbieters muss ausdrücklich bestätigt werden.")
    else .ok provider

/-- `IdentityProviderAdminService.remove` -/
def removeProvider (db : Db) (id : String) (confirmLastActiveProvider : Bool) : Except HttpError Db :=
  (providerTarget db id confirmLastActiveProvider).map fun provider => db.deleteProvider provider.id

structure UnlinkRequest where
  providerId : String
  userId : String
  identityId : String
  issuer : String
  subject : String
  deriving DecidableEq, Repr

/-- The checks of `unlinkIdentity`. -/
def unlinkTarget (db : Db) (r : UnlinkRequest) : Except HttpError ExternalIdentity :=
  match (db.identities.find r.identityId).filter fun row => row.userId = r.userId && row.providerId = r.providerId with
  | none => .error (.oidc "account_conflict")
  | some identity =>
    if identity.issuer ≠ r.issuer ∨ identity.subject ≠ r.subject ∨
      (db.users.find identity.userId).all (·.isProtected) then
      .error (.oidc "account_conflict")
    else if (db.users.find identity.userId).all (!·.hasLocalPassword) ∧
        db.identities.rows.countP (fun row => row.userId = identity.userId) ≤ 1 then
      .error (.oidc "account_conflict")
    else .ok identity

def unlinkIdentity (db : Db) (r : UnlinkRequest) : Except HttpError Db :=
  (unlinkTarget db r).map fun identity => db.deleteIdentities (·.id = identity.id)

/-! ## The calls -/

inductive Call
  | addMember (groupId userId : String) (role : GroupMembershipRole) (actor : Actor) (newId : String)
  | updateMember (groupId userId : String) (role : GroupMembershipRole) (actor : Actor)
  | removeMember (groupId userId : String) (actor : Actor)
  | synchronize (externalIdentityId : String) (claims : List (String × Json)) (c : Choice)
  | synchronizeStored (externalIdentityId : String) (c : Choice)
  | removeGroupMapping (providerId mappingId : String)
  | removeProvider (id : String) (confirmLastActiveProvider : Bool)
  | unlinkIdentity (r : UnlinkRequest)
  /-- Whatever else happens to the tables, memberships and grants apart. -/
  | elsewhere (db' : Db)

section Perform

variable (env : Env)

/-- One call; one that fails with an exception leaves the tables. -/
def perform (db : Db) : Call → Option Db
  | .addMember groupId userId role actor newId => some (addMember db groupId userId role actor newId).1
  | .updateMember groupId userId role actor =>
    some (match updateMember db groupId userId role actor with
      | .error _ => db
      | .ok (db', _) => db')
  | .removeMember groupId userId actor =>
    some (match removeMember db groupId userId actor with
      | .error _ => db
      | .ok (db', _) => db')
  | .synchronize externalIdentityId claims c => some (synchronize env db externalIdentityId claims c).1
  | .synchronizeStored externalIdentityId c => some (synchronizeStored env db externalIdentityId c).1
  | .removeGroupMapping providerId mappingId => some ((removeGroupMapping db providerId mappingId).toOption.getD db)
  | .removeProvider id confirm => some ((removeProvider db id confirm).toOption.getD db)
  | .unlinkIdentity r => some ((unlinkIdentity db r).toOption.getD db)
  | .elsewhere db' =>
    if db'.memberships.rows = db.memberships.rows ∧ db'.grants.rows = db.grants.rows then some db' else none

end Perform

/-- Every membership has a local grant or an external one. -/
def Justified (db : Db) : Prop :=
  ∀ membership ∈ db.memberships, membership.hasLocalGrant = true ∨ ∃ grant ∈ db.grants, grant.membershipId = membership.id

/-- The grant goes by cascade with what the call deletes: a mapping, a provider or an identity. -/
def cascades (db : Db) (grant : ExternalGroupMembershipGrant) : Call → Bool
  | .removeGroupMapping providerId mappingId =>
    (mappingTarget db providerId mappingId).toOption.any fun mapping => grant.groupMappingId = mapping.id
  | .removeProvider id confirm =>
    (providerTarget db id confirm).toOption.any fun provider =>
      (db.identities.find grant.externalIdentityId).any (·.providerId = provider.id) ||
        (db.groupMappings.find grant.groupMappingId).any (·.providerId = provider.id)
  | .unlinkIdentity r => (unlinkTarget db r).toOption.any fun identity => grant.externalIdentityId = identity.id
  | _ => false

/-- No membership without a local grant loses its last external one. -/
def keepsLastGrant (db : Db) (call : Call) : Bool :=
  db.memberships.rows.all fun membership =>
    membership.hasLocalGrant ||
      db.grants.rows.any fun grant => grant.membershipId = membership.id && !cascades db grant call

variable {env : Env} {db db' : Db} {call : Call} {grant : ExternalGroupMembershipGrant} {membership : GroupMembership}

/-! ## Calls that take no grant with them -/

/-- A new state of one membership, which is justified in it. -/
theorem Justified.put (hs : Justified db)
    (h : membership.hasLocalGrant = true ∨ ∃ grant ∈ db.grants, grant.membershipId = membership.id) :
    Justified { db with memberships := db.memberships.put membership } := by
  intro m hm
  rcases Table.mem_put.mp hm with ⟨-, -, -, rfl⟩ | ⟨hm, -⟩
  · exact h
  · exact hs m hm

theorem justified_createMembership (hs : Justified db) (hlocal : membership.hasLocalGrant = true)
    (h : db.createMembership membership = some db') : Justified db' := by
  unfold Db.createMembership at h
  split at h
  · cases h
  · obtain ⟨memberships, hcreate, rfl⟩ := Option.map_eq_some_iff.mp h
    intro m hm
    rcases (Table.mem_createMany hcreate).mp hm with hm | hm
    · exact hs m hm
    · obtain rfl := List.mem_singleton.mp hm
      exact Or.inl hlocal

theorem Justified.upgradeMembership {groupId userId : String} {role : GroupMembershipRole} (hs : Justified db) :
    Justified (db.upgradeMembership groupId userId role) := by
  intro m hm
  simp only [Db.upgradeMembership, Table.mem_updateMany] at hm
  obtain ⟨old, hold, rfl⟩ := hm
  split
  · exact Or.inl rfl
  · exact hs old hold

theorem justified_addMember {groupId userId newId : String} {role : GroupMembershipRole} {actor : Actor}
    (hs : Justified db) :
    Justified (addMember db groupId userId role actor newId).1 := by
  unfold addMember
  split
  · exact hs
  · split
    · next db' hcreate => exact justified_createMembership hs rfl hcreate
    · dsimp only
      split
      · exact hs.upgradeMembership
      · exact hs.upgradeMembership

theorem justified_updateMember {groupId userId : String} {role : GroupMembershipRole} {actor : Actor} (hs : Justified db)
    (h : updateMember db groupId userId role actor = .ok (db', membership)) : Justified db' := by
  simp only [updateMember, Fallible.bind_eq_ok] at h
  obtain ⟨authority, -, h⟩ := h
  split at h
  · cases h
  · obtain ⟨existing, -, h⟩ := Fallible.bind_eq_ok.mp h
    split at h
    · next hlocal =>
      cases h
      exact hs.put (Or.inl hlocal)
    · cases h

theorem justified_removeMember {groupId userId : String} {actor : Actor} (hs : Justified db)
    (h : removeMember db groupId userId actor = .ok (db', membership)) : Justified db' := by
  simp only [removeMember, Fallible.bind_eq_ok] at h
  obtain ⟨authority, -, existing, -, h⟩ := h
  split at h
  · cases h
  · split at h
    · cases h
    · split at h
      · next hgrants =>
        cases h
        obtain ⟨grant, hgrant, hid⟩ := List.countP_pos_iff.mp hgrants
        exact hs.put (Or.inr ⟨grant, hgrant, by simpa using hid⟩)
      · next hnone =>
        cases h
        have hgrants : ∀ grant ∈ db.grants, grant.membershipId ≠ membership.id := by
          intro grant hgrant hid
          exact hnone (List.countP_pos_iff.mpr ⟨grant, hgrant, by simpa using hid⟩)
        intro m hm
        obtain ⟨hm, -⟩ := Table.mem_deleteMany.mp hm
        refine (hs m hm).imp_right ?_
        rintro ⟨grant, hgrant, hid⟩
        refine ⟨grant, (Db.mem_deleteMemberships fun other hother => ?_).mpr hgrant, hid⟩
        rw [of_decide_eq_true hother]
        exact hgrants

/-- **A synchronisation leaves no membership without a reason**: it deletes those whose last grant it removes. -/
theorem justified_transaction {id : String} {claims : NormalizedClaims} {c : Choice} {preview : IdentitySyncPreview}
    (hs : Justified db) (h : transaction env db id claims c = .ok (db', preview)) : Justified db' := by
  obtain ⟨identity, -, -, hload, -⟩ := transaction_ok h
  obtain ⟨hpreview, db₁, hadded, hremoved⟩ := transaction_written hload h
  intro m hm
  obtain ⟨hm, hkept⟩ := (hremoved.memberships m).mp hm
  have hs₁ : m.hasLocalGrant = true ∨ ∃ grant ∈ db₁.grants, grant.membershipId = m.id := by
    rcases hadded.created m hm with hm | ⟨-, -, grant, hgrant, hid, -⟩
    · refine (hs m hm).imp_right ?_
      rintro ⟨grant, hgrant, hid⟩
      exact ⟨grant, hadded.grants grant hgrant, hid⟩
    · exact Or.inr ⟨grant, hgrant, hid⟩
  cases hlocal : m.hasLocalGrant with
  | true => exact Or.inl rfl
  | false =>
    right
    rw [hlocal] at hs₁
    obtain ⟨grant, hgrant, hid⟩ := hs₁.resolve_left Bool.false_ne_true
    by_contra hnone
    push Not at hnone
    -- the grant was removed, so it was there before, and its membership is one of those that are looked at
    have hgone : grant.externalIdentityId = id ∧ ∃ change ∈ preview.remove, change.mappingId = grant.groupMappingId := by
      by_contra hno
      exact hnone grant ((hremoved.grants grant).mpr ⟨hgrant, hno⟩) hid
    obtain ⟨hown, change, hchange, hmapping⟩ := hgone
    obtain ⟨-, hgranted, -⟩ := (buildPreview_remove hload hpreview).mp ⟨change, hchange, hmapping⟩
    have hold : grant ∈ db.grants := by
      rcases hadded.new grant hgrant with hold | ⟨-, change', hchange', hmapping', -⟩
      · exact hold
      · exact absurd hgranted ((buildPreview_add hload hpreview).mp ⟨change', hchange', hmapping'⟩).2
    exact hkept ⟨List.ne_nil_of_mem hchange, hid ▸ mem_removedMembershipIds hload hold hown hchange hmapping,
      hlocal, hnone⟩

theorem justified_of_same (hs : Justified db) (h : SameGrants db db') : Justified db' := by
  unfold Justified
  rw [h.memberships, h.grants]
  exact hs

theorem justified_apply {id : String} {claims : NormalizedClaims} {c : Choice} (hs : Justified db) :
    Justified (apply env db id claims c).1 := by
  unfold apply
  split
  · exact justified_of_same hs (recordFailure_same db id _)
  · next db' preview hok => exact justified_transaction hs hok

theorem justified_synchronize {id : String} {raw : List (String × Json)} {c : Choice} (hs : Justified db) :
    Justified (synchronize env db id raw c).1 := by
  rcases synchronize_cases env db id raw c with
    ⟨-, -, hsame⟩ | ⟨identity, claims, db', preview, -, -, hok, heq⟩
  · exact justified_of_same hs hsame
  · rw [heq]
    exact justified_transaction hs hok

theorem justified_synchronizeStored {id : String} {c : Choice} (hs : Justified db) :
    Justified (synchronizeStored env db id c).1 := by
  unfold synchronizeStored
  split
  · exact hs
  · split
    · next code _ => exact justified_of_same hs (recordFailure_same db id (.sync code))
    · exact justified_apply hs

/-! ## Calls that may take grants with them -/

/-- A call that leaves the memberships, and takes from the grants those that go by cascade. -/
theorem keepsLastGrant_iff (hmemberships : db'.memberships.rows = db.memberships.rows)
    (hgrants : ∀ grant, grant ∈ db'.grants ↔ grant ∈ db.grants ∧ cascades db grant call = false) :
    keepsLastGrant db call = true ↔ Justified db' := by
  simp only [keepsLastGrant, Justified, List.all_eq_true, Bool.or_eq_true, List.any_eq_true, Bool.and_eq_true,
    decide_eq_true_eq, Bool.not_eq_true', Table.mem_def, hmemberships] at hgrants ⊢
  refine forall₂_congr fun membership _ => or_congr_right ?_
  simp only [hgrants]
  constructor
  · rintro ⟨grant, hgrant, hid, hkept⟩
    exact ⟨grant, ⟨hgrant, hkept⟩, hid⟩
  · rintro ⟨grant, ⟨hgrant, hkept⟩, hid⟩
    exact ⟨grant, hgrant, hid, hkept⟩

/-- A call that takes no grant by cascade meets the condition where memberships are justified. -/
theorem keepsLastGrant_of_justified (hs : Justified db) (h : ∀ grant, cascades db grant call = false) :
    keepsLastGrant db call = true :=
  (keepsLastGrant_iff rfl fun grant => by simp [h grant]).mpr hs

theorem mem_grants_deleteIdentities {p : ExternalIdentity → Bool} : grant ∈ (db.deleteIdentities p).grants ↔
    grant ∈ db.grants ∧ (db.identities.find grant.externalIdentityId).any p = false := Db.mem_deleteGrants

theorem mem_grants_deleteGroupMappings {p : IdentityProviderGroupMapping → Bool} :
    grant ∈ (db.deleteGroupMappings p).grants ↔
      grant ∈ db.grants ∧ (db.groupMappings.find grant.groupMappingId).any p = false := Table.mem_deleteMany

theorem mem_grants_deleteProvider {id : String} : grant ∈ (db.deleteProvider id).grants ↔ grant ∈ db.grants ∧
    ((db.identities.find grant.externalIdentityId).any (·.providerId = id) ||
      (db.groupMappings.find grant.groupMappingId).any (·.providerId = id)) = false := by
  show grant ∈ ((db.deleteIdentities (·.providerId = id)).deleteGroupMappings (·.providerId = id)).grants ↔ _
  rw [mem_grants_deleteGroupMappings, mem_grants_deleteIdentities, Bool.or_eq_false_iff, and_assoc]
  rfl

/-- A removal of which the checks are `target` and the deletion is `delete`. -/
theorem keepsLastGrant_iff_of_removal {α : Type} {target : Except HttpError α} {delete : α → Db}
    {gone : ExternalGroupMembershipGrant → α → Bool}
    (hcascades : ∀ grant, cascades db grant call = target.toOption.any (gone grant))
    (hmemberships : ∀ a, (delete a).memberships.rows = db.memberships.rows)
    (hgrants : ∀ a, target = .ok a → ∀ grant, grant ∈ (delete a).grants ↔ grant ∈ db.grants ∧ gone grant a = false) :
    keepsLastGrant db call = true ↔ Justified ((target.map delete).toOption.getD db) := by
  cases htarget : target with
  | error e =>
    refine keepsLastGrant_iff rfl fun grant => ?_
    rw [hcascades, htarget]
    exact (and_iff_left rfl).symm
  | ok a =>
    refine keepsLastGrant_iff (hmemberships a) fun grant => ?_
    rw [hcascades, htarget]
    exact hgrants a htarget grant

theorem mappingTarget_mem {providerId mappingId : String} {mapping : IdentityProviderGroupMapping}
    (h : mappingTarget db providerId mappingId = .ok mapping) : mapping ∈ db.groupMappings := by
  unfold mappingTarget at h
  split at h
  · cases h
  · next hfind =>
    cases h
    exact (Table.find_eq_some.mp (Option.filter_eq_some_iff.mp hfind).1).1

theorem unlinkTarget_mem {r : UnlinkRequest} {identity : ExternalIdentity} (h : unlinkTarget db r = .ok identity) :
    identity ∈ db.identities := by
  unfold unlinkTarget at h
  split at h
  · cases h
  · next hfind =>
    split at h
    · cases h
    · split at h
      · cases h
      · cases h
        exact (Table.find_eq_some.mp (Option.filter_eq_some_iff.mp hfind).1).1

/-- **One call.** The condition says whether memberships are justified after it. -/
theorem perform_keepsLastGrant (hs : Justified db) (h : perform env db call = some db') :
    keepsLastGrant db call = true ↔ Justified db' := by
  have hkept : (∀ grant, cascades db grant call = false) → Justified db' →
      (keepsLastGrant db call = true ↔ Justified db') :=
    fun hnone hs' => iff_of_true (keepsLastGrant_of_justified hs hnone) hs'
  cases call with
  | addMember groupId userId role actor newId =>
    cases h
    exact hkept (fun _ => rfl) (justified_addMember hs)
  | updateMember groupId userId role actor =>
    refine hkept (fun _ => rfl) ?_
    cases h
    split
    · exact hs
    · next hok => exact justified_updateMember hs hok
  | removeMember groupId userId actor =>
    refine hkept (fun _ => rfl) ?_
    cases h
    split
    · exact hs
    · next hok => exact justified_removeMember hs hok
  | synchronize id raw c =>
    cases h
    exact hkept (fun _ => rfl) (justified_synchronize hs)
  | synchronizeStored id c =>
    cases h
    exact hkept (fun _ => rfl) (justified_synchronizeStored hs)
  | removeGroupMapping providerId mappingId =>
    cases h
    refine keepsLastGrant_iff_of_removal (fun _ => rfl) (fun _ => rfl) fun mapping htarget grant => ?_
    rw [mem_grants_deleteGroupMappings, Table.any_find (mappingTarget_mem htarget)]
  | removeProvider id confirm =>
    cases h
    exact keepsLastGrant_iff_of_removal (fun _ => rfl) (fun _ => rfl) fun provider _ grant => mem_grants_deleteProvider
  | unlinkIdentity r =>
    cases h
    refine keepsLastGrant_iff_of_removal (fun _ => rfl) (fun _ => rfl) fun identity htarget grant => ?_
    rw [mem_grants_deleteIdentities, Table.any_find (unlinkTarget_mem htarget)]
  | elsewhere other =>
    simp only [perform] at h
    split at h
    · next hsame =>
      cases h
      refine hkept (fun _ => rfl) fun m hm => ?_
      simp only [Table.mem_def, hsame.1, hsame.2] at hm ⊢
      exact hs m hm
    · cases h

/-- **Every membership stays justified exactly in the runs in which no removal takes a last grant with it.** -/
theorem memberships_justified_iff {calls : List Call} (hs : Justified db)
    (hr : Runs.run (perform env) db calls = some db') :
    Runs.Throughout (perform env) Justified db calls ↔
      Runs.Along (perform env) (fun db call => keepsLastGrant db call = true) db calls :=
  Runs.throughout_iff_along (fun _ _ _ hs h => perform_keepsLastGrant hs h) hs hr

/-! ## A mapping is removed -/

namespace Demo

def locale : Env := ⟨fun left right => if left = right then 0 else if left < right then -1 else 1⟩

def identity : ExternalIdentity where
  id := "identity"
  providerId := "provider"
  userId := "user"
  issuer := "https://idp"
  subject := "subject"
  email := none
  username := none
  displayName := none
  lastLoginAt := none
  lastGroupSyncAt := none
  lastSyncErrorCode := none
  lastGroupClaims := []
  lastRoleClaims := []

/-- A user with an identity at a provider whose group `staff` is mapped to the group `team`. -/
def tables : Db where
  users := .single ⟨"user", "user@wiki", "user", true, false, true⟩
  groups := .single ⟨"team", "Team"⟩
  roles := .empty
  providers := .single ⟨"provider", "IdP", true, .managed, some "groups", none, false⟩
  identities := .single identity
  groupMappings := .single ⟨"mapping", "provider", "staff", none, "team"⟩
  roleMappings := .empty
  memberships := .empty
  grants := .empty
  roleGrants := .empty
  grantMapping := fun _ h => nomatch h

def login : Call := .synchronize "identity" [("groups", .arr [.str "staff"])] ⟨false, fun _ => "membership", 1⟩

def join : Call := .addMember "team" "user" .member ⟨"admin", false, true⟩ "local"

def unmap : Call := .removeGroupMapping "provider" "mapping"

/-- Some membership is not justified. -/
def orphaned (db : Db) : Bool :=
  db.memberships.rows.any fun membership =>
    !membership.hasLocalGrant && db.grants.rows.all fun grant => grant.membershipId != membership.id

end Demo

theorem justified_demo : Justified Demo.tables := fun _ h => nomatch h

/-- The condition holds where the user is a local member too. -/
theorem memberships_justified_local :
    ∃ db', Runs.run (perform Demo.locale) Demo.tables [Demo.login, Demo.join, Demo.unmap] = some db' ∧
    Runs.Throughout (perform Demo.locale) Justified Demo.tables [Demo.login, Demo.join, Demo.unmap] := by
  have hrun : (Runs.run (perform Demo.locale) Demo.tables [Demo.login, Demo.join, Demo.unmap]).isSome := by decide +kernel
  obtain ⟨db', hrun⟩ := Option.isSome_iff_exists.mp hrun
  exact ⟨db', hrun, (memberships_justified_iff justified_demo hrun).mpr (by decide +kernel)⟩

theorem not_justified_of_orphaned {db : Db} (h : Demo.orphaned db = true) : ¬ Justified db := by
  intro hs
  obtain ⟨membership, hm, hnone⟩ := List.any_eq_true.mp h
  simp only [Bool.and_eq_true, Bool.not_eq_true', List.all_eq_true, bne_iff_ne] at hnone
  rcases hs membership hm with hlocal | ⟨grant, hgrant, hid⟩
  · rw [hnone.1] at hlocal
    cases hlocal
  · exact hnone.2 grant hgrant hid

/-- The synchronisation makes the user a member, the removal of the mapping takes the grant and leaves the membership. -/
theorem orphaned_by_mapping : ∃ db', Runs.run (perform Demo.locale) Demo.tables [Demo.login, Demo.unmap] = some db' ∧
    Justified Demo.tables ∧ ¬ Justified db' := by
  have hrun :
    (Runs.run (perform Demo.locale) Demo.tables [Demo.login, Demo.unmap]).any Demo.orphaned = true := by decide +kernel
  obtain ⟨db', hrun, horphaned⟩ := (Option.any_eq_true _ _).mp hrun
  exact ⟨db', hrun, justified_demo, not_justified_of_orphaned horphaned⟩

end AdWiki.Sso
