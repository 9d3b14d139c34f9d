import AdWiki.Access.Directory
import AdWiki.Lib.Runs
import AdWiki.Sso.RoleMappings
import Mathlib

/-!
# One role grant decides

A user may hold a role grant through each of his identities. Priorities are unique at one provider only; across
providers it is the synchronisation that refuses a grant whose priority another identity of the user has.

* `transaction_roleGrant`: the role grant that a synchronisation leaves.
* `performRole_roleTables`: every call keeps the priorities of a user's grants distinct.
* `effectiveRole_unambiguous`: `withEffectiveRole` never has two grants of the first priority.
-/

namespace AdWiki.Sso

/-- The priority of the role grant of an identity. -/
def Db.priorityOf (db : Db) (id : String) : Option Int := (db.roleGrantOf id).map fun mapped => mapped.mapping.priority

/-- The foreign keys of mappings and role grants, and the priorities of one user's grants. -/
structure RoleTables (db : Db) : Prop where
  mapping : ∀ mapping ∈ db.roleMappings, (db.roles.find mapping.roleId).isSome ∧
    (db.providers.find mapping.providerId).isSome
  grant : ∀ grant ∈ db.roleGrants, (db.identities.find grant.externalIdentityId).isSome ∧
    ∃ mapping ∈ db.roleMappings, mapping.id = grant.roleMappingId ∧ mapping.roleId = grant.roleId
  distinct : ∀ a ∈ db.identities, ∀ b ∈ db.identities, a.userId = b.userId → a.id ≠ b.id →
    ∀ priority, db.priorityOf a.id = some priority → db.priorityOf b.id ≠ some priority

variable {env : Env} {db db' : Db} {identity : SyncIdentity} {claims : NormalizedClaims} {preview : IdentitySyncPreview}
  {id : String} {source : ClaimSource} {c : Choice}

theorem priorityOf_eq_some {priority : Int} : db.priorityOf id = some priority ↔ ∃ grant ∈ db.roleGrants,
    grant.externalIdentityId = id ∧ ∃ mapping ∈ db.roleMappings, mapping.id = grant.roleMappingId ∧
      mapping.priority = priority := by
  simp only [Db.priorityOf, Db.roleGrantOf, Option.bind_eq_bind, Option.map_eq_some_iff, Option.bind_eq_some_iff]
  constructor
  · rintro ⟨mapped, ⟨grant, hgrant, mapping, hmapping, hmapped⟩, rfl⟩
    obtain ⟨hgrant, hid⟩ := Table.find_eq_some.mp hgrant
    obtain ⟨hmapping, hmid⟩ := Table.find_eq_some.mp hmapping
    cases hmapped
    exact ⟨grant, hgrant, hid, mapping, hmapping, hmid, rfl⟩
  · rintro ⟨grant, hgrant, hid, mapping, hmapping, hmid, rfl⟩
    exact ⟨_, ⟨grant, Table.find_eq_some.mpr ⟨hgrant, hid⟩, mapping, Table.find_eq_some.mpr ⟨hmapping, hmid⟩, rfl⟩, rfl⟩

/-- Tables with fewer grants, with the mappings of those that are left, and with new identities that have none. -/
theorem RoleTables.of_fewer (hs : RoleTables db)
    (hmappings : ∀ mapping ∈ db'.roleMappings,
      (db'.roles.find mapping.roleId).isSome ∧ (db'.providers.find mapping.providerId).isSome)
    (hgrants : ∀ grant ∈ db'.roleGrants, grant ∈ db.roleGrants ∧ (db'.identities.find grant.externalIdentityId).isSome ∧
      ∀ mapping ∈ db.roleMappings, mapping.id = grant.roleMappingId → mapping ∈ db'.roleMappings)
    (hidentities : ∀ row ∈ db'.identities, (∃ old ∈ db.identities, old.id = row.id ∧ old.userId = row.userId) ∨
      ∀ grant ∈ db'.roleGrants, grant.externalIdentityId ≠ row.id) : RoleTables db' := by
  have hold : ∀ id priority, db'.priorityOf id = some priority → db.priorityOf id = some priority := by
    intro id priority h
    obtain ⟨grant, hgrant, hid, mapping, hmapping, hmid, hpriority⟩ := priorityOf_eq_some.mp h
    obtain ⟨hgrant', -, hkept⟩ := hgrants grant hgrant
    obtain ⟨-, old, hold, holdId, -⟩ := hs.grant grant hgrant'
    obtain rfl : mapping = old :=
      Rows.eq_of_key db'.roleMappings.unique hmapping (hkept old hold holdId) (hmid.trans holdId.symm)
    exact priorityOf_eq_some.mpr ⟨grant, hgrant', hid, mapping, hold, hmid, hpriority⟩
  refine ⟨hmappings, fun grant hgrant => ?_, fun a ha b hb huser hne priority hpa hpb => ?_⟩
  · obtain ⟨hgrant', hidentity, hkept⟩ := hgrants grant hgrant
    obtain ⟨-, mapping, hmapping, hmid, hrole⟩ := hs.grant grant hgrant'
    exact ⟨hidentity, mapping, hkept mapping hmapping hmid, hmid, hrole⟩
  · -- an identity with a grant was there before
    have hthere : ∀ row ∈ db'.identities, db'.priorityOf row.id = some priority →
        ∃ old ∈ db.identities, old.id = row.id ∧ old.userId = row.userId := by
      intro row hrow hprow
      obtain ⟨grant, hgrant, hid, -⟩ := priorityOf_eq_some.mp hprow
      exact (hidentities row hrow).resolve_right fun hnone => hnone grant hgrant hid
    obtain ⟨a', ha', haid, hauser⟩ := hthere a ha hpa
    obtain ⟨b', hb', hbid, hbuser⟩ := hthere b hb hpb
    refine hs.distinct a' ha' b' hb' (by rw [hauser, huser, hbuser]) (by rw [haid, hbid]; exact hne) priority ?_ ?_
    · rw [haid]
      exact hold a.id priority hpa
    · rw [hbid]
      exact hold b.id priority hpb

theorem SameIdentities.old (h : SameIdentities db db') {row : ExternalIdentity} (hrow : row ∈ db'.identities) :
    ∃ old ∈ db.identities, old.id = row.id ∧ old.userId = row.userId := by
  have hfind := h row.id
  rw [Table.find_of_mem hrow, Option.map_some] at hfind
  obtain ⟨old, hold, heq⟩ := Option.map_eq_some_iff.mp hfind.symm
  obtain ⟨hmem, hid⟩ := Table.find_eq_some.mp hold
  exact ⟨old, hmem, hid, (Prod.mk.inj heq).2⟩

theorem SameIdentities.isSome (h : SameIdentities db db') :
    (db'.identities.find id).isSome = (db.identities.find id).isSome := by
  have := congrArg Option.isSome (h id)
  rwa [Option.isSome_map, Option.isSome_map] at this

/-- A call that leaves mappings and role grants alone. -/
theorem RoleTables.of_same (hs : RoleTables db) (hidentities : SameIdentities db db')
    (hroles : ∀ id, (db'.roles.find id).isSome = (db.roles.find id).isSome)
    (hproviders : ∀ id, (db'.providers.find id).isSome = (db.providers.find id).isSome)
    (hmappings : db'.roleMappings = db.roleMappings) (hgrants : db'.roleGrants = db.roleGrants) : RoleTables db' := by
  refine hs.of_fewer (fun mapping hmapping => ?_) (fun grant hgrant => ?_) fun row hrow => Or.inl (hidentities.old hrow)
  · rw [hroles, hproviders]
    exact hs.mapping mapping (hmappings ▸ hmapping)
  · rw [hgrants] at hgrant
    refine ⟨hgrant, ?_, fun mapping hmapping _ => hmappings ▸ hmapping⟩
    rw [hidentities.isSome]
    exact (hs.grant grant hgrant).1

theorem RoleTables.of_unsynced (hs : RoleTables db) (h : Unsynced db db') : RoleTables db' :=
  hs.of_same h.identities (fun id => by rw [h.mappings.roles]) (fun id => by rw [h.mappings.providers])
    h.mappings.roleMappings h.grants.roleGrants

/-! ## The synchronisation -/

theorem mem_externalIdentities (h : db.findIdentity id = some identity) {row : ExternalIdentity}
    (hrow : row ∈ db.identities)
    (huser : row.userId = identity.identity.userId) : (row.id, db.priorityOf row.id) ∈ identity.externalIdentities := by
  simp only [Db.findIdentity, Option.bind_eq_bind, Option.bind_eq_some_iff] at h
  obtain ⟨own, -, provider, -, hsome⟩ := h
  cases hsome
  exact List.mem_map.mpr ⟨row, List.mem_filter.mpr ⟨hrow, by simpa using huser⟩, rfl⟩

/-- The checks that the mapping of the next role has passed. -/
theorem nextMatch_some {next : MappedRole} (h : nextMatch env identity claims = .ok (some next)) :
    next ∈ identity.roleMappings ∧
      (identity.provider.allowAdminRoleMapping = false → isPrivilegedRole next.role = false) ∧
      ∀ other ∈ identity.externalIdentities, other.1 ≠ identity.identity.id → other.2 ≠ some next.mapping.priority := by
  unfold nextMatch at h
  split at h
  · cases h
  · next first others hsome =>
    split at h
    · cases h
    · split at h
      · cases h
      · next hallowed =>
        split at h
        · cases h
        · next hfree =>
          cases h
          have hmem : next ∈ matchingRoles env identity claims := hsome ▸ List.mem_cons_self
          refine ⟨(List.mem_filter.mp (List.mem_insertionSort _ |>.mp hmem)).1, fun hoff => ?_,
            fun other hother hne hsame => ?_⟩
          · rw [hoff] at hallowed
            simpa using hallowed
          · exact hfree (List.any_eq_true.mpr ⟨other, hother, by simp [hne, hsame]⟩)

/-- **The role grant that a synchronisation leaves**: that of the next role, or none. -/
theorem transaction_roleGrant (hs : RoleTables db) (hload : db.findIdentity id = some identity)
    (h : transaction env db id claims c = .ok (db', preview)) : ∃ next, nextMatch env identity claims = .ok next ∧
      db'.roleGrants.find id = next.map fun mapped => ⟨id, mapped.mapping.id, mapped.mapping.roleId⟩ := by
  obtain ⟨identity', db₁, db₂, hload', hpreview, hadd, hrole, rfl⟩ := transaction_ok h
  obtain rfl : identity = identity' := Option.some.inj (hload.symm.trans hload')
  obtain ⟨-, next, -, hnext, -, -, hself, hnextRole, hchanged⟩ := buildPreview_ok hpreview
  rw [findIdentity_id hload] at hself
  obtain ⟨-, hunchanged, hset, -⟩ := changeRole_eq_some hrole
  refine ⟨next, hnext, ?_⟩
  show db₂.roleGrants.find id = _
  have hroleId : ∀ mapped ∈ identity.roleMappings, mapped.role.id = mapped.mapping.roleId := by
    intro mapped hmapped
    rw [(mem_roleMappings hload hmapped).2, Db.mappedRole]
    cases hfind : db.roles.find mapped.mapping.roleId with
    | none => rfl
    | some role => exact (Table.find_eq_some.mp hfind).2
  have hmem : ∀ mapped, next = some mapped → mapped ∈ identity.roleMappings := fun mapped heq =>
    (nextMatch_some (heq ▸ hnext)).1
  cases hkind : preview.roleChanged with
  | true =>
    have hfind := hset hkind
    rw [hself] at hfind
    rw [hfind, hnextRole, Option.map_map]
    cases hn : next with
    | none => rfl
    | some mapped =>
      simp only [Option.map_some, Function.comp_apply, roleChange]
      rw [hroleId mapped (hmem mapped hn)]
  | false =>
    have hroles : db₂.roleGrants = db.roleGrants := by
      rw [hunchanged hkind, removeGroups_same.2.2, (addGroups_added hadd).same.2.2]
    have hsame : identity.externalRoleGrant.map (fun role => role.mapping.id) = next.map fun role => role.mapping.id := by
      rw [hkind] at hchanged
      simpa using hchanged.symm
    rw [hroles]
    rw [findIdentity_externalRoleGrant hload, Db.roleGrantOf] at hsame
    cases hgrant : db.roleGrants.find id with
    | none =>
      rw [hgrant] at hsame
      cases hn : next with
      | none => rfl
      | some mapped =>
        rw [hn] at hsame
        cases hsame
    | some grant =>
      obtain ⟨hgrantMem, hgrantId⟩ := Table.find_eq_some.mp hgrant
      obtain ⟨-, mapping, hmapping, hmid, hrole⟩ := hs.grant grant hgrantMem
      have hfind : db.roleMappings.find grant.roleMappingId = some mapping := Table.find_eq_some.mpr ⟨hmapping, hmid⟩
      rw [hgrant] at hsame
      simp only [Option.bind_eq_bind, Option.bind_some, hfind, Option.pure_def, Option.map_some] at hsame
      cases hn : next with
      | none =>
        rw [hn] at hsame
        cases hsame
      | some mapped =>
        rw [hn, Option.map_some, Option.some.injEq] at hsame
        -- the mapping of the grant is the one of the next role
        have hmapped := (mem_roleMappings hload (hmem mapped hn)).1
        obtain rfl : mapping = mapped.mapping :=
          Rows.eq_of_key db.roleMappings.unique hmapping (Table.find_eq_some.mp hmapped).1 hsame
        rw [Option.map_some, Option.some.injEq, ← hgrantId, hmid, hrole]

theorem roleTables_transaction (hs : RoleTables db) (hload : db.findIdentity id = some identity)
    (h : transaction env db id claims c = .ok (db', preview)) : RoleTables db' := by
  obtain ⟨next, hnext, hown⟩ := transaction_roleGrant hs hload h
  have hsame := transaction_same h
  have hidentities := transaction_identities h
  have hrow : db.identities.find id = some identity.identity := (findIdentity_eq_some hload).1
  have hmapped : ∀ mapped, next = some mapped → mapped.mapping ∈ db.roleMappings := fun mapped heq =>
    (Table.find_eq_some.mp (mem_roleMappings hload (nextMatch_some (heq ▸ hnext)).1).1).1
  have hother :
      ∀ other priority, other ≠ id → (db'.priorityOf other = some priority ↔ db.priorityOf other = some priority) := by
    intro other priority hne
    rw [priorityOf_eq_some, priorityOf_eq_some, hsame.roleMappings]
    constructor
    · rintro ⟨grant, hgrant, hid, hrest⟩
      exact ⟨grant, (transaction_otherRoles h (hid ▸ hne)).mp hgrant, hid, hrest⟩
    · rintro ⟨grant, hgrant, hid, hrest⟩
      exact ⟨grant, (transaction_otherRoles h (hid ▸ hne)).mpr hgrant, hid, hrest⟩
  have hself : ∀ priority, db'.priorityOf id = some priority →
      ∃ mapped, next = some mapped ∧ mapped.mapping.priority = priority := by
    intro priority hp
    obtain ⟨grant, hgrant, hid, mapping, hmapping, hmid, rfl⟩ := priorityOf_eq_some.mp hp
    rw [Table.find_eq_some.mpr ⟨hgrant, hid⟩] at hown
    obtain ⟨mapped, hn, hgrantEq⟩ := Option.map_eq_some_iff.mp hown.symm
    refine ⟨mapped, hn, ?_⟩
    rw [← hgrantEq] at hmid
    rw [hsame.roleMappings] at hmapping
    rw [Rows.eq_of_key db.roleMappings.unique hmapping (hmapped mapped hn) hmid]
  -- the grant of this identity against that of another one of the user
  have hclash : ∀ row ∈ db'.identities, row.id ≠ id → row.userId = identity.identity.userId → ∀ priority,
      db'.priorityOf id = some priority → db'.priorityOf row.id ≠ some priority := by
    intro row hrow' hne huser priority hp hprow
    obtain ⟨mapped, hn, rfl⟩ := hself priority hp
    obtain ⟨old, hold, holdId, holdUser⟩ := hidentities.old hrow'
    have hmem := mem_externalIdentities hload hold (holdUser.trans huser)
    refine (nextMatch_some (hn ▸ hnext)).2.2 _ hmem ?_ ?_
    · rw [findIdentity_id hload, holdId]
      exact hne
    · rw [holdId]
      exact (hother row.id _ hne).mp hprow
  refine ⟨fun mapping hmapping => ?_, fun grant hgrant => ?_, fun a ha b hb huser hne priority hpa hpb => ?_⟩
  · rw [hsame.roles, hsame.providers]
    exact hs.mapping mapping (hsame.roleMappings ▸ hmapping)
  · rw [hidentities.isSome, hsame.roleMappings]
    by_cases hid : grant.externalIdentityId = id
    · rw [Table.find_eq_some.mpr ⟨hgrant, hid⟩] at hown
      obtain ⟨mapped, hn, rfl⟩ := Option.map_eq_some_iff.mp hown.symm
      exact ⟨by rw [hrow]; rfl, mapped.mapping, hmapped mapped hn, rfl, rfl⟩
    · exact hs.grant grant ((transaction_otherRoles h hid).mp hgrant)
  · by_cases haid : a.id = id
    · have hauser : a.userId = identity.identity.userId := by
        obtain ⟨old, hold, holdId, holdUser⟩ := hidentities.old ha
        have hfind := Table.find_of_mem hold
        rw [holdId, haid, hrow, Option.some.injEq] at hfind
        rw [← holdUser, hfind]
      exact hclash b hb (fun hbid => hne (haid.trans hbid.symm)) (huser ▸ hauser) priority (haid ▸ hpa) hpb
    · by_cases hbid : b.id = id
      · have hbuser : b.userId = identity.identity.userId := by
          obtain ⟨old, hold, holdId, holdUser⟩ := hidentities.old hb
          have hfind := Table.find_of_mem hold
          rw [holdId, hbid, hrow, Option.some.injEq] at hfind
          rw [← holdUser, hfind]
        exact hclash a ha haid (huser.trans hbuser) priority (hbid ▸ hpb) hpa
      · obtain ⟨a', ha', haid', hauser⟩ := hidentities.old ha
        obtain ⟨b', hb', hbid', hbuser⟩ := hidentities.old hb
        refine hs.distinct a' ha' b' hb' (by rw [hauser, huser, hbuser]) (by rw [haid', hbid']; exact hne) priority ?_ ?_
        · rw [haid']
          exact (hother a.id priority haid).mp hpa
        · rw [hbid']
          exact (hother b.id priority hbid).mp hpb

/-! ## The other calls -/

theorem toOption_getD_cases {ε α : Type*} (r : Except ε α) (a : α) :
    (∃ b, r = .ok b ∧ r.toOption.getD a = b) ∨ r.toOption.getD a = a := by
  cases r with
  | error e => exact Or.inr rfl
  | ok b => exact Or.inl ⟨b, rfl, rfl⟩

theorem roleTables_createRoleMapping {providerId newId : String} {input : CreateIdentityProviderRoleMappingInput}
    (hs : RoleTables db) (h : createRoleMapping db providerId input newId = .ok db') : RoleTables db' := by
  unfold createRoleMapping at h
  split at h
  · cases h
  · next hprovider =>
    split at h
    · cases h
    · next hrole =>
      split at h
      · cases h
      · split at h
        · cases h
        · next roleMappings hcreate =>
          cases h
          refine hs.of_fewer (fun mapping hmapping => ?_) (fun grant hgrant => ?_) fun row hrow =>
            Or.inl ⟨row, hrow, rfl, rfl⟩
          · rcases (Table.mem_createMany hcreate).mp hmapping with hold | hnew
            · exact hs.mapping mapping hold
            · obtain rfl := List.mem_singleton.mp hnew
              exact ⟨by simpa [Option.isSome_iff_ne_none] using hrole,
                by simpa [Option.isSome_iff_ne_none] using hprovider⟩
          · exact ⟨hgrant, (hs.grant grant hgrant).1, fun mapping hmapping _ =>
              (Table.mem_createMany hcreate).mpr (Or.inl hmapping)⟩

theorem RoleTables.deleteRoleMappings (hs : RoleTables db) (p : IdentityProviderRoleMapping → Bool) :
    RoleTables (db.deleteRoleMappings p) := by
  refine hs.of_fewer (fun mapping hmapping => ?_) (fun grant hgrant => ?_) fun row hrow => Or.inl ⟨row, hrow, rfl, rfl⟩
  · exact hs.mapping mapping (Table.mem_deleteMany.mp hmapping).1
  · obtain ⟨hgrant, hkept⟩ := Table.mem_deleteMany.mp hgrant
    refine ⟨hgrant, (hs.grant grant hgrant).1, fun mapping hmapping hid => Table.mem_deleteMany.mpr ⟨hmapping, ?_⟩⟩
    rw [Table.find_eq_some.mpr ⟨hmapping, hid⟩, Option.any_some] at hkept
    exact hkept

theorem RoleTables.deleteIdentities (hs : RoleTables db) (p : ExternalIdentity → Bool) :
    RoleTables (db.deleteIdentities p) := by
  refine hs.of_fewer hs.mapping (fun grant hgrant => ?_) fun row hrow =>
    Or.inl ⟨row, (Table.mem_deleteMany.mp hrow).1, rfl, rfl⟩
  obtain ⟨hgrant, hkept⟩ := Table.mem_deleteMany.mp hgrant
  refine ⟨hgrant, ?_, fun mapping hmapping _ => hmapping⟩
  obtain ⟨row, hrow⟩ := Option.isSome_iff_exists.mp (hs.grant grant hgrant).1
  rw [hrow, Option.any_some] at hkept
  show (Table.find (db.identities.deleteMany p) grant.externalIdentityId).isSome = true
  rw [Table.find_deleteMany, hrow, Option.filter_some, hkept]
  rfl

theorem roleTables_linkIdentity {providerId userId issuer newId : String} {profile : MappedOidcProfile} {now : Time}
    (hs : RoleTables db) (h : linkIdentity db providerId userId issuer profile now newId = .ok db') : RoleTables db' := by
  unfold linkIdentity at h
  dsimp only at h
  split at h
  · cases h
  · split at h
    · cases h
    · split at h
      · cases h
      · split at h
        · next row _ =>
          cases h
          exact hs.of_same (sameIdentities_updateMany (p := (·.id = row.id)) (f := externalProfileUpdate profile now)
            (fun _ => rfl) (fun _ => rfl) (fun _ => rfl) rfl) (fun _ => rfl) (fun _ => rfl) rfl rfl
        · split at h
          · cases h
          · split at h
            · cases h
            · next identities hcreate =>
              cases h
              refine hs.of_fewer hs.mapping (fun grant hgrant => ?_) fun row hrow => ?_
              · refine ⟨hgrant, ?_, fun mapping hmapping _ => hmapping⟩
                show (Table.find identities grant.externalIdentityId).isSome = true
                rw [Table.find_createMany hcreate, Option.isSome_or, (hs.grant grant hgrant).1, Bool.true_or]
              · rcases (Table.mem_createMany hcreate).mp hrow with hold | hnew
                · exact Or.inl ⟨row, hold, rfl, rfl⟩
                · -- the id of the new row is that of no identity with a grant
                  refine Or.inr fun grant hgrant hid => ?_
                  obtain ⟨old, hold⟩ := Option.isSome_iff_exists.mp (hs.grant grant hgrant).1
                  obtain ⟨hmem, holdId⟩ := Table.find_eq_some.mp hold
                  exact Table.key_ne_of_createMany hcreate hmem hnew (holdId.trans hid)

/-- Every call keeps the priorities of each user's grants distinct. -/
theorem performRole_roleTables {call : RoleCall} (hs : RoleTables db) (h : performRole env db call = some db') :
    RoleTables db' := by
  cases call with
  | sync id source c =>
    cases h
    have hout := syncOutcome_sync env db id source c
    generalize sync env db id c source = out at hout ⊢
    cases hout with
    | missing _ => exact hs
    | @claims _ code _ _ => exact hs.of_unsynced (unsynced_recordFailure db id (.sync code))
    | @failed _ _ error _ _ _ => exact hs.of_unsynced (unsynced_recordFailure db id error)
    | written hload _ hwritten => exact roleTables_transaction hs hload hwritten
  | createRoleMapping providerId input newId =>
    cases h
    rcases toOption_getD_cases (createRoleMapping db providerId input newId) db with ⟨db', hok, heq⟩ | heq
    · rw [heq]
      exact roleTables_createRoleMapping hs hok
    · rwa [heq]
  | removeRoleMapping providerId mappingId =>
    cases h
    rcases toOption_getD_cases (removeRoleMapping db providerId mappingId) db with ⟨db', hok, heq⟩ | heq
    · rw [heq]
      unfold removeRoleMapping at hok
      split at hok
      · cases hok
      · cases hok
        exact hs.deleteRoleMappings _
    · rwa [heq]
  | updateProvider id input accepted =>
    cases h
    rcases toOption_getD_cases (updateProvider db id input accepted) db with ⟨db', hok, heq⟩ | heq
    · rw [heq]
      unfold updateProvider at hok
      split at hok
      · cases hok
      · split at hok
        · cases hok
        · split at hok
          · cases hok
          · cases hok
            have hid : ∀ row, (IdentityProvider.write input row).id = row.id := fun _ => rfl
            exact hs.of_same (.of_eq rfl) (fun _ => rfl) (fun _ => Table.isSome_find_updateMany hid) rfl rfl
    · rwa [heq]
  | setRoleAcls roleId entries accepted =>
    cases h
    rcases toOption_getD_cases (setRoleAcls db roleId entries accepted) db with ⟨db', hok, heq⟩ | heq
    · rw [heq]
      unfold setRoleAcls at hok
      split at hok
      · cases hok
      · split at hok
        · cases hok
        · cases hok
          have hid : ∀ role : Role, { role with acls := allowedResources entries }.id = role.id := fun _ => rfl
          exact hs.of_same (.of_eq rfl) (fun _ => Table.isSome_find_updateMany hid) (fun _ => rfl) rfl rfl
    · rwa [heq]
  | linkIdentity providerId userId issuer profile now newId =>
    cases h
    rcases toOption_getD_cases (linkIdentity db providerId userId issuer profile now newId) db with ⟨db', hok, heq⟩ | heq
    · rw [heq]
      exact roleTables_linkIdentity hs hok
    · rwa [heq]
  | unlinkIdentity r =>
    cases h
    rcases toOption_getD_cases (unlinkIdentity db r) db with ⟨db', hok, heq⟩ | heq
    · rw [heq]
      cases htarget : unlinkTarget db r with
      | error e =>
        rw [unlinkIdentity, htarget] at hok
        cases hok
      | ok identity =>
        rw [unlinkIdentity, htarget] at hok
        cases hok
        exact hs.deleteIdentities _
    · rwa [heq]

theorem roleTables_empty (hmappings : db.roleMappings.rows = []) (hgrants : db.roleGrants.rows = []) : RoleTables db := by
  have hnone : ∀ mapping, mapping ∉ db.roleMappings := fun mapping hmem => by
    rw [Table.mem_def, hmappings] at hmem
    cases hmem
  have hnoGrant : ∀ grant, grant ∉ db.roleGrants := fun grant hmem => by
    rw [Table.mem_def, hgrants] at hmem
    cases hmem
  refine ⟨fun mapping hmem => absurd hmem (hnone mapping), fun grant hmem => absurd hmem (hnoGrant grant), ?_⟩
  intro a _ b _ _ _ priority hp
  obtain ⟨grant, hgrant, -⟩ := priorityOf_eq_some.mp hp
  exact absurd hgrant (hnoGrant grant)

/-! ## The effective role -/

/-- What `effectiveRoleUserSelect` loads of the role grant of an identity; `displayOrder` is that column of the providers.
-/
def Db.loadedGrant (db : Db) (displayOrder : String → Int) (externalIdentityId : String) : Option Access.LoadedGrant := do
  let grant ← db.roleGrants.find externalIdentityId
  let role ← db.roles.find grant.roleId
  let mapping ← db.roleMappings.find grant.roleMappingId
  let provider ← db.providers.find mapping.providerId
  pure {
    role := ⟨role.id, role.name⟩
    roleMapping := ⟨mapping.id, mapping.priority, mapping.providerId⟩
    provider := ⟨provider.id, displayOrder provider.id⟩ }

/-- `user.externalIdentities`, each with its role grant. -/
def Db.loadedGrants (db : Db) (displayOrder : String → Int) (userId : String) : List Access.LoadedGrant :=
  (db.identities.rows.filter fun row => row.userId = userId).filterMap fun row => db.loadedGrant displayOrder row.id

section Loaded

variable {displayOrder : String → Int} {userId : String} {loaded : Access.LoadedGrant}

theorem loadedGrant_priority (h : db.loadedGrant displayOrder id = some loaded) :
    db.priorityOf id = some loaded.roleMapping.priority := by
  simp only [Db.loadedGrant, Option.bind_eq_bind, Option.bind_eq_some_iff] at h
  obtain ⟨grant, hgrant, role, -, mapping, hmapping, provider, -, hloaded⟩ := h
  cases hloaded
  obtain ⟨hgrant, hid⟩ := Table.find_eq_some.mp hgrant
  obtain ⟨hmapping, hmid⟩ := Table.find_eq_some.mp hmapping
  exact priorityOf_eq_some.mpr ⟨grant, hgrant, hid, mapping, hmapping, hmid, rfl⟩

/-- Every role grant is loaded, as its foreign keys hold. -/
theorem RoleTables.loadedGrant (hs : RoleTables db) (displayOrder : String → Int) {grant : ExternalRoleGrant}
    (hgrant : grant ∈ db.roleGrants) : ∃ loaded, db.loadedGrant displayOrder grant.externalIdentityId = some loaded ∧
      loaded.role.id = grant.roleId ∧ loaded.roleMapping.id = grant.roleMappingId := by
  obtain ⟨-, mapping, hmapping, hmid, hrole⟩ := hs.grant grant hgrant
  obtain ⟨hroleSome, hproviderSome⟩ := hs.mapping mapping hmapping
  obtain ⟨role, hroleFind⟩ := Option.isSome_iff_exists.mp hroleSome
  obtain ⟨provider, hproviderFind⟩ := Option.isSome_iff_exists.mp hproviderSome
  have hgrantFind := Table.find_of_mem hgrant
  have hmappingFind : db.roleMappings.find grant.roleMappingId = some mapping := Table.find_eq_some.mpr ⟨hmapping, hmid⟩
  rw [hrole] at hroleFind
  refine ⟨⟨⟨role.id, role.name⟩, ⟨mapping.id, mapping.priority, mapping.providerId⟩,
    ⟨provider.id, displayOrder provider.id⟩⟩,
    ?_, (Table.find_eq_some.mp hroleFind).2, hmid⟩
  simp only [Db.loadedGrant, Option.bind_eq_bind, hgrantFind, Option.bind_some, hroleFind, hmappingFind, hproviderFind,
    Option.pure_def]

theorem mem_loadedGrants : loaded ∈ db.loadedGrants displayOrder userId ↔
    ∃ row ∈ db.identities, row.userId = userId ∧ db.loadedGrant displayOrder row.id = some loaded := by
  simp only [Db.loadedGrants, List.mem_filterMap, List.mem_filter, decide_eq_true_eq, and_assoc, Table.mem_def]

theorem RoleTables.nodup_priorities (hs : RoleTables db) (displayOrder : String → Int) (userId : String) :
    ((db.loadedGrants displayOrder userId).map fun loaded => loaded.roleMapping.priority).Nodup := by
  have hids : ((db.identities.rows.filter fun row => row.userId = userId).map ExternalIdentity.id).Nodup :=
    db.identities.unique.sublist (List.filter_sublist.map _)
  rw [List.Nodup, List.pairwise_map, Db.loadedGrants, List.pairwise_filterMap]
  refine (List.pairwise_map.mp hids).imp_of_mem fun {a b} ha hb hne left hleft right hright hsame => ?_
  obtain ⟨ha, hauser⟩ := List.mem_filter.mp ha
  obtain ⟨hb, hbuser⟩ := List.mem_filter.mp hb
  rw [decide_eq_true_eq] at hauser hbuser
  refine hs.distinct a ha b hb (hauser.trans hbuser.symm) hne _ (loadedGrant_priority hleft) ?_
  rw [hsame]
  exact loadedGrant_priority hright

/-- Of grants with distinct priorities, one comes before all others. -/
theorem exists_inForce {grants : List Access.LoadedGrant}
    (hnodup : (grants.map fun loaded => loaded.roleMapping.priority).Nodup) (hne : grants ≠ []) :
    ∃ g, Access.InForce grants g ∧ ∀ other ∈ grants, other ≠ g → g.roleMapping.priority < other.roleMapping.priority := by
  cases hmin : grants.argmin fun loaded => loaded.roleMapping.priority with
  | none => exact absurd (List.argmin_eq_none.mp hmin) hne
  | some g =>
    have hmem : g ∈ grants := List.argmin_mem hmin
    have hleast : ∀ other ∈ grants, g.roleMapping.priority ≤ other.roleMapping.priority := fun other hother =>
      List.le_of_mem_argmin (f := fun loaded : Access.LoadedGrant => loaded.roleMapping.priority) hother hmin
    refine ⟨g, ⟨hmem, hleast, ?_⟩, fun other hother hother' => lt_of_le_of_ne (hleast other hother) fun hsame => ?_⟩
    · have hone : grants.countP (fun loaded => loaded.roleMapping.priority == g.roleMapping.priority) ≤ 1 :=
        Rows.countP_le_one hnodup fun a _ b _ ha hb => (beq_iff_eq.mp ha).trans (beq_iff_eq.mp hb).symm
      have hpos : 0 < grants.countP fun loaded => loaded.roleMapping.priority == g.roleMapping.priority :=
        List.countP_pos_iff.mpr ⟨g, hmem, by simp⟩
      omega
    · exact hother' (Rows.eq_of_key hnodup hother hmem hsame.symm)

end Loaded

/-- **The effective role is unambiguous**: after every run of calls the grants of a user have distinct priorities, and
his role is that of the grant that comes first, or his local role if he has none. -/
theorem effectiveRole_unambiguous (displayOrder : String → Int) {calls : List RoleCall}
    (hmappings : db.roleMappings.rows = []) (hgrants : db.roleGrants.rows = [])
    (h : Runs.run (performRole env) db calls = some db') (userId : String) :
    ((db'.loadedGrants displayOrder userId).map fun loaded => loaded.roleMapping.priority).Nodup ∧
      (∀ row ∈ db'.identities, row.userId = userId → ∀ grant, db'.roleGrants.find row.id = some grant →
        ∃ loaded ∈ db'.loadedGrants displayOrder userId,
          loaded.role.id = grant.roleId ∧ loaded.roleMapping.id = grant.roleMappingId) ∧
      ((∃ first ∈ db'.loadedGrants displayOrder userId,
          (∀ other ∈ db'.loadedGrants displayOrder userId, other ≠ first →
            first.roleMapping.priority < other.roleMapping.priority) ∧
          ∀ localRole, Access.effectiveRole localRole (db'.loadedGrants displayOrder userId) = first.role) ∨
        db'.loadedGrants displayOrder userId = [] ∧
          ∀ localRole, Access.effectiveRole localRole (db'.loadedGrants displayOrder userId) = localRole) := by
  have hs : RoleTables db' :=
    Runs.inv_run (fun _ _ _ => performRole_roleTables) (roleTables_empty hmappings hgrants) h
  have hnodup := hs.nodup_priorities displayOrder userId
  refine ⟨hnodup, fun row hrow huser grant hgrant => ?_, ?_⟩
  · obtain ⟨hgrant, hid⟩ := Table.find_eq_some.mp hgrant
    obtain ⟨loaded, hloaded, hrole, hmapping⟩ := hs.loadedGrant displayOrder hgrant
    exact ⟨loaded, mem_loadedGrants.mpr ⟨row, hrow, huser, hid ▸ hloaded⟩, hrole, hmapping⟩
  · by_cases hne : db'.loadedGrants displayOrder userId = []
    · exact Or.inr ⟨hne, fun localRole => by rw [hne]; rfl⟩
    · obtain ⟨first, hforce, hfirst⟩ := exists_inForce hnodup hne
      exact Or.inl ⟨first, hforce.mem, hfirst, fun localRole => Access.effectiveRole_of_inForce hforce⟩

/-! ## A user with two identities -/

namespace RoleDemo

def locale : Env := ⟨fun left right => if left = right then 0 else if left < right then -1 else 1⟩

def profile : MappedOidcProfile := ⟨"subject", none, none, none⟩

/-- A user with an identity at the first of two providers, which both map roles. -/
def tables : Db where
  users := .single ⟨"user", "user@wiki", "user", true, false, true⟩
  groups := .empty
  roles := ⟨[⟨"operator", "Operator", ["pages", "backups"]⟩, ⟨"editor", "Editor", ["pages"]⟩], by decide⟩
  providers := ⟨[⟨"intranet", "Intranet", true, .managed, none, some "roles", true⟩,
    ⟨"partner", "Partner", true, .managed, none, some "roles", false⟩], by decide⟩
  identities := .single (linkedIdentity "identity" "intranet" "user" "https://intranet" profile 0)
  groupMappings := .empty
  roleMappings := .empty
  memberships := .empty
  grants := .empty
  roleGrants := .empty
  grantMapping := fun _ h => nomatch h

/-- The role `operator` through the first provider, then the role `editor` through the second one too. -/
def mapOperator : RoleCall := .createRoleMapping "intranet" ⟨.role, "ops", "operator", 1⟩ "mapping"

def login : RoleCall := .sync "identity" (.received [("roles", .arr [.str "ops"])]) ⟨false, fun _ => "", 1⟩

def calls : List RoleCall :=
  [mapOperator, login, .createRoleMapping "partner" ⟨.role, "edit", "editor", 2⟩ "other",
    .linkIdentity "partner" "user" "https://partner" profile 2 "second",
    .sync "second" (.received [("roles", .arr [.str "edit"])]) ⟨false, fun _ => "", 3⟩]

end RoleDemo

/-- Both grants are there, and the first one decides. -/
theorem effectiveRole_unambiguous_two :
    ∃ db', Runs.run (performRole RoleDemo.locale) RoleDemo.tables RoleDemo.calls = some db' ∧
    ((db'.loadedGrants (fun _ => 0) "user").map fun loaded => loaded.roleMapping.priority).Nodup ∧
    (db'.loadedGrants (fun _ => 0) "user").map (fun loaded => loaded.role.id) = ["operator", "editor"] := by
  have hrun : (Runs.run (performRole RoleDemo.locale) RoleDemo.tables RoleDemo.calls).any fun db' =>
      (db'.loadedGrants (fun _ => 0) "user").map (fun loaded => loaded.role.id) =
        ["operator", "editor"] := by decide +kernel
  obtain ⟨db', hrun, hroles⟩ := (Option.any_eq_true _ _).mp hrun
  exact ⟨db', hrun, (effectiveRole_unambiguous (fun _ => 0) rfl rfl hrun "user").1, of_decide_eq_true hroles⟩

end AdWiki.Sso
