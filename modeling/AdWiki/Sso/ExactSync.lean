import AdWiki.Sso.SyncEffects

/-!
# Exact synchronisation

A successful synchronisation leaves exactly the grants that the claims ask for and touches no other identity's; a
second one with the same claims changes nothing; one that fails changes nothing.

* `transaction_again`: the transaction finds nothing to do after itself.
* `synchronize_exact`: the synchronisation with any claims in any state.
-/

namespace AdWiki.Sso

variable {env : Env} {db db' db'' : Db} {identity identity' : SyncIdentity} {claims : NormalizedClaims}
  {preview preview' : IdentitySyncPreview} {id : String} {c c' : Choice}

/-- The same group grants, role grants and memberships. -/
structure SameGrants (db db' : Db) : Prop where
  grants : db'.grants = db.grants
  roleGrants : db'.roleGrants = db.roleGrants
  memberships : db'.memberships = db.memberships

theorem SameGrants.refl (db : Db) : SameGrants db db := ⟨rfl, rfl, rfl⟩

/-! ## The identity after a synchronisation -/

theorem findIdentity_externalRoleGrant (h : db.findIdentity id = some identity) :
    identity.externalRoleGrant = db.roleGrantOf id := by
  have hid := findIdentity_id h
  simp only [Db.findIdentity, Option.bind_eq_bind, Option.bind_eq_some_iff] at h
  obtain ⟨row, hrow, provider, hprovider, hsome⟩ := h
  cases hsome
  rw [← hid]

theorem mem_roleMappings (h : db.findIdentity id = some identity) {mapped : MappedRole}
    (hm : mapped ∈ identity.roleMappings) :
    db.roleMappings.find mapped.mapping.id = some mapped.mapping ∧ mapped = db.mappedRole mapped.mapping := by
  simp only [Db.findIdentity, Option.bind_eq_bind, Option.bind_eq_some_iff] at h
  obtain ⟨row, hrow, provider, hprovider, hsome⟩ := h
  cases hsome
  obtain ⟨mapping, hmapping, rfl⟩ := List.mem_map.mp hm
  exact ⟨Table.find_of_mem (List.mem_filter.mp hmapping).1, rfl⟩

theorem SameMappings.mappedGroup (h : SameMappings db db') : db'.mappedGroup = db.mappedGroup := by
  funext mapping
  simp only [Db.mappedGroup, h.groups]

theorem SameMappings.mappedRole (h : SameMappings db db') : db'.mappedRole = db.mappedRole := by
  funext mapping
  simp only [Db.mappedRole, h.roles]

/-- The configuration is read the same where the mappings are the same. -/
theorem findIdentity_config (hsame : SameMappings db db') (h : db.findIdentity id = some identity)
    (h' : db'.findIdentity id = some identity')
    (hprovider : identity'.identity.providerId = identity.identity.providerId) :
    identity'.provider = identity.provider ∧ identity'.groupMappings = identity.groupMappings ∧
      identity'.roleMappings = identity.roleMappings := by
  simp only [Db.findIdentity, Option.bind_eq_bind, Option.bind_eq_some_iff] at h h'
  obtain ⟨row, -, provider, hfind, hsome⟩ := h
  obtain ⟨row', -, provider', hfind', hsome'⟩ := h'
  cases hsome
  cases hsome'
  rw [hprovider, hsame.providers] at hfind'
  obtain rfl : provider = provider' := Option.some.inj (hfind.symm.trans hfind')
  exact ⟨rfl, by rw [hsame.groupMappings, hsame.mappedGroup], by rw [hsame.roleMappings, hsame.mappedRole]⟩

theorem find_recordSuccess :
    (recordSuccess id claims c.now db).identities.find id = (db.identities.find id).map fun row =>
    { row with
      lastGroupClaims := claims.groups
      lastRoleClaims := claims.roles
      lastGroupSyncAt := some c.now
      lastSyncErrorCode := none } := by
  unfold recordSuccess
  rw [Table.find_updateMany]
  cases hfind : db.identities.find id with
  | none => rfl
  | some row => simp [(Table.find_eq_some.mp hfind).2]

/-- The row of the identity keeps its provider. -/
theorem transaction_identity (h : transaction env db id claims c = .ok (db', preview))
    (hload : db.findIdentity id = some identity) (hload' : db'.findIdentity id = some identity') :
    identity'.identity.providerId = identity.identity.providerId := by
  obtain ⟨_, db₁, db₂, -, -, hadd, hrole, rfl⟩ := transaction_ok h
  have hidentities : db₂.identities = db.identities := by
    rw [(changeRole_eq_some hrole).2.2.2.2.2.2, removeGroups_same.2.1, (addGroups_added hadd).same.2.1]
  have hfind' := (findIdentity_eq_some hload').1
  rw [find_recordSuccess, hidentities, (findIdentity_eq_some hload).1, Option.map_some, Option.some.injEq] at hfind'
  rw [← hfind']

/-! ## The role -/

theorem nextMatch_ok {next : Option MappedRole} (h : nextMatch env identity claims = .ok next) :
    next = (matchingRoles env identity claims).head? := by
  unfold nextMatch at h
  split at h
  · next hnone =>
    cases h
    rw [hnone]
    rfl
  · next first others hsome =>
    split at h
    · cases h
    · split at h
      · cases h
      · split at h
        · cases h
        · cases h
          rw [hsome]
          rfl

/-- After the transaction the role is that of the matching mapping of the first priority. -/
theorem transaction_role (hload : db.findIdentity id = some identity)
    (h : transaction env db id claims c = .ok (db', preview)) :
    (db'.roleGrantOf id).map (fun role => role.mapping.id) =
      (matchingRoles env identity claims).head?.map fun role => role.mapping.id := by
  have hsame := transaction_same h
  obtain ⟨identity', db₁, db₂, hload', hpreview, hadd, hrole, rfl⟩ := transaction_ok h
  obtain rfl : identity = identity' := Option.some.inj (hload.symm.trans hload')
  obtain ⟨matched, next, -, hnext, -, -, hself, hnextRole, hchanged⟩ := buildPreview_ok hpreview
  rw [findIdentity_id hload] at hself
  obtain ⟨-, hunchanged, hset, -⟩ := changeRole_eq_some hrole
  rw [← nextMatch_ok hnext]
  cases hkind : preview.roleChanged with
  | false =>
    have hroles : db₂.roleGrants = db.roleGrants := by
      rw [hunchanged hkind, removeGroups_same.2.2, (addGroups_added hadd).same.2.2]
    have heq : identity.externalRoleGrant.map (fun role => role.mapping.id) = next.map fun role => role.mapping.id := by
      rw [hkind] at hchanged
      simpa using hchanged.symm
    rw [← heq, findIdentity_externalRoleGrant hload]
    simp only [Db.roleGrantOf, hsame.mappedRole, hsame.roleMappings]
    rw [show (recordSuccess id claims c.now db₂).roleGrants = db.roleGrants from hroles]
  | true =>
    have hfind := hset hkind
    rw [hself, hnextRole] at hfind
    simp only [Db.roleGrantOf, hsame.roleMappings]
    rw [show (recordSuccess id claims c.now db₂).roleGrants = db₂.roleGrants from rfl, hfind]
    cases hn : next with
    | none => rfl
    | some mapped =>
      have hmem : mapped ∈ identity.roleMappings := by
        have hhead : mapped ∈ matchingRoles env identity claims :=
          List.mem_of_head? (by rw [← nextMatch_ok hnext, hn])
        exact (List.mem_filter.mp (List.mem_insertionSort _ |>.mp hhead)).1
      simp only [Option.map_some, Option.bind_eq_bind, Option.bind_some]
      rw [show (roleChange mapped).mappingId = mapped.mapping.id from rfl, (mem_roleMappings hload hmem).1]
      rfl

/-! ## Once more -/

/-- **The transaction finds nothing to do after itself.** -/
theorem transaction_again (hload : db.findIdentity id = some identity)
    (h : transaction env db id claims c = .ok (db', preview))
    (h' : transaction env db' id claims c' = .ok (db'', preview')) : SameGrants db' db'' := by
  have hexact := transaction_exact hload h
  have hrole := transaction_role hload h
  obtain ⟨identity', db₁, db₂, hload', hpreview', hadd', hrole', rfl⟩ := transaction_ok h'
  obtain ⟨hprovider, hgroups, hroles⟩ :=
    findIdentity_config (transaction_same h) hload hload' (transaction_identity h hload hload')
  obtain ⟨-, next, -, hnext, -, -, -, -, hchanged⟩ := buildPreview_ok hpreview'
  have hadd : preview'.add = [] := by
    refine List.eq_nil_iff_forall_not_mem.mpr fun change hchange => ?_
    obtain ⟨htarget, hnot⟩ := (buildPreview_add hload' hpreview').mp ⟨change, hchange, rfl⟩
    rw [hgroups] at htarget
    exact hnot ((hexact.granted _).mpr (Or.inl htarget))
  have hremove : preview'.remove = [] := by
    refine List.eq_nil_iff_forall_not_mem.mpr fun change hchange => ?_
    obtain ⟨hmode, hgranted, hnot⟩ := (buildPreview_remove hload' hpreview').mp ⟨change, hchange, rfl⟩
    rw [hprovider] at hmode
    rw [hgroups] at hnot
    rcases (hexact.granted _).mp hgranted with htarget | ⟨haddOnly, -⟩
    · exact hnot htarget
    · rw [hmode] at haddOnly
      cases haddOnly
  have hunchanged : preview'.roleChanged = false := by
    have hmatching : matchingRoles env identity' claims = matchingRoles env identity claims := by
      simp only [matchingRoles, hroles]
    rw [hchanged, findIdentity_externalRoleGrant hload', hrole, nextMatch_ok hnext, hmatching]
    simp
  rw [hadd] at hadd'
  obtain rfl : db' = db₁ := Option.some.inj hadd'
  have hsame₂ : db₂ = db' := by
    rw [(changeRole_eq_some hrole').2.1 hunchanged, removeGroups, if_pos hremove]
  rw [hsame₂]
  exact ⟨rfl, rfl, rfl⟩

/-! ## Any claims -/

/-- The mapping is one of the provider, and a value of its group claim matches it. -/
def Mapped (db : Db) (provider : IdentityProvider) (claims : List (String × Json)) (mappingId : String) : Prop :=
  ∃ mapping ∈ db.groupMappings, mapping.id = mappingId ∧ mapping.providerId = provider.id ∧
    ∃ value, Names claims provider.groupClaim value ∧
      (mapping.externalGroupId = value ∨ mapping.externalGroupPath = some value)

theorem normalizeProviderClaims_ok {raw : List (String × Json)}
    (h : normalizeProviderClaims env identity raw = .ok claims) :
    normalizeClaimValues env raw identity.provider.groupClaim .groupClaimInvalid = .ok claims.groups ∧
      normalizeClaimValues env raw identity.provider.roleClaim .roleClaimInvalid = .ok claims.roles := by
  simp only [normalizeProviderClaims, Fallible.bind_eq_ok] at h
  obtain ⟨-, -, groups, hgroups, roles, hroles, hclaims⟩ := h
  cases hclaims
  exact ⟨hgroups, hroles⟩

theorem matchesValue_iff {mapped : MappedGroup} {value : String} : matchesValue mapped value = true ↔
    mapped.mapping.externalGroupId = value ∨ mapped.mapping.externalGroupPath = some value := by
  rw [matchesValue, Bool.or_eq_true, decide_eq_true_eq, decide_eq_true_eq]

theorem target_iff_mapped {raw : List (String × Json)} {mappingId : String} (hload : db.findIdentity id = some identity)
    (h : normalizeProviderClaims env identity raw = .ok claims) :
    Target identity.groupMappings claims.groups mappingId ↔ Mapped db identity.provider raw mappingId := by
  have hvalues : ∀ value, value ∈ claims.groups ↔ Names raw identity.provider.groupClaim value := fun value =>
    mem_normalizeClaimValues (normalizeProviderClaims_ok h).1
  constructor
  · rintro ⟨mapped, hmapped, rfl, value, hvalue, hmatch⟩
    obtain ⟨mapping, hmapping, hprovider, rfl⟩ := (mem_groupMappings hload).mp hmapped
    exact ⟨mapping, hmapping, rfl, hprovider, value, (hvalues value).mp hvalue, matchesValue_iff.mp hmatch⟩
  · rintro ⟨mapping, hmapping, rfl, hprovider, value, hvalue, hmatch⟩
    exact ⟨db.mappedGroup mapping, (mem_groupMappings hload).mpr ⟨mapping, hmapping, hprovider, rfl⟩, rfl, value,
      (hvalues value).mpr hvalue, matchesValue_iff.mpr hmatch⟩

theorem recordFailure_same (db : Db) (id : String) (error : SyncError) : SameGrants db (recordFailure id error db) :=
  ⟨rfl, rfl, rfl⟩

/-- What a synchronisation is: an error that leaves grants and memberships, or the transaction with the normalized
claims. -/
theorem synchronize_cases (env : Env) (db : Db) (id : String) (raw : List (String × Json)) (c : Choice) :
    (∃ error, (synchronize env db id raw c).2 = .error error ∧ SameGrants db (synchronize env db id raw c).1) ∨
    ∃ identity claims db' preview, db.findIdentity id = some identity ∧
      normalizeProviderClaims env identity raw = .ok claims ∧ transaction env db id claims c = .ok (db', preview) ∧
      synchronize env db id raw c = (db', .ok preview) := by
  unfold synchronize
  split
  · exact Or.inl ⟨.notFound, rfl, .refl db⟩
  · next identity hload =>
    split
    · next code _ => exact Or.inl ⟨.sync code, rfl, recordFailure_same db id (.sync code)⟩
    · next claims hclaims =>
      unfold apply
      split
      · next error _ => exact Or.inl ⟨error, rfl, recordFailure_same db id error⟩
      · next db' preview hok => exact Or.inr ⟨identity, claims, db', preview, hload, hclaims, hok, rfl⟩

end AdWiki.Sso
