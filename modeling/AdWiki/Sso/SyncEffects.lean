import AdWiki.Sso.Synchronization
import AdWiki.Lib.Fallible

/-!
# What a synchronisation writes

The changes that a preview asks for, and what the transaction does to grants and memberships.

* `targetGroups_isSome`: the mappings that the values match.
* `buildPreview_add`, `buildPreview_remove`: the grants to add and to remove.
* `addGroups_added`, `removeGroups_removed`, `changeRole_eq_some`: the three parts of the transaction.
* `transaction_synced`: the transaction as a whole.
-/

namespace AdWiki.Sso

variable {env : Env} {db db' : Db} {identity : SyncIdentity} {claims : NormalizedClaims} {preview : IdentitySyncPreview}
  {id mappingId : String}

/-! ## The identity -/

/-- Does the identity have a grant through the mapping? -/
def Granted (db : Db) (id mappingId : String) : Prop :=
  ∃ grant ∈ db.grants, grant.externalIdentityId = id ∧ grant.groupMappingId = mappingId

theorem findIdentity_eq_some (h : db.findIdentity id = some identity) : db.identities.find id = some identity.identity ∧
    db.providers.find identity.identity.providerId = some identity.provider := by
  simp only [Db.findIdentity, Option.bind_eq_bind, Option.bind_eq_some_iff] at h
  obtain ⟨row, hrow, provider, hprovider, hsome⟩ := h
  cases hsome
  exact ⟨hrow, hprovider⟩

theorem findIdentity_id (h : db.findIdentity id = some identity) : identity.identity.id = id :=
  (Table.find_eq_some.mp (findIdentity_eq_some h).1).2

theorem mem_groupMappings (h : db.findIdentity id = some identity) {mapped : MappedGroup} :
    mapped ∈ identity.groupMappings ↔
    ∃ mapping ∈ db.groupMappings, mapping.providerId = identity.provider.id ∧ mapped = db.mappedGroup mapping := by
  simp only [Db.findIdentity, Option.bind_eq_bind, Option.bind_eq_some_iff] at h
  obtain ⟨row, hrow, provider, hprovider, hsome⟩ := h
  cases hsome
  simp only [List.mem_map, List.mem_filter, decide_eq_true_eq, Table.mem_def]
  constructor
  · rintro ⟨mapping, ⟨hm, hp⟩, rfl⟩
    exact ⟨mapping, hm, hp, rfl⟩
  · rintro ⟨mapping, hm, hp, rfl⟩
    exact ⟨mapping, ⟨hm, hp⟩, rfl⟩

/-- The included grants are the grants of the identity, each with its mapping. -/
theorem mem_groupMembershipGrants (h : db.findIdentity id = some identity)
    {g : ExternalGroupMembershipGrant × MappedGroup} :
    g ∈ identity.groupMembershipGrants ↔ g.1 ∈ db.grants ∧ g.1.externalIdentityId = id ∧
      ∃ mapping, db.groupMappings.find g.1.groupMappingId = some mapping ∧ g.2 = db.mappedGroup mapping := by
  have hid := findIdentity_id h
  simp only [Db.findIdentity, Option.bind_eq_bind, Option.bind_eq_some_iff] at h
  obtain ⟨row, hrow, provider, hprovider, hsome⟩ := h
  cases hsome
  obtain rfl : row.id = id := hid
  simp only [List.mem_filterMap, List.mem_filter, decide_eq_true_eq, Option.map_eq_some_iff]
  constructor
  · rintro ⟨grant, ⟨hgrant, hown⟩, mapping, hmapping, rfl⟩
    exact ⟨hgrant, hown, mapping, hmapping, rfl⟩
  · rintro ⟨hgrant, hown, mapping, hmapping, hmapped⟩
    exact ⟨g.1, ⟨hgrant, hown⟩, mapping, hmapping, by rw [← hmapped]⟩

/-- The foreign key to the mapping makes the included grants complete. -/
theorem exists_groupMembershipGrants (h : db.findIdentity id = some identity) {grant : ExternalGroupMembershipGrant} :
    (∃ mapped, (grant, mapped) ∈ identity.groupMembershipGrants) ↔ grant ∈ db.grants ∧ grant.externalIdentityId = id := by
  constructor
  · rintro ⟨mapped, hmem⟩
    obtain ⟨hgrant, hown, -⟩ := (mem_groupMembershipGrants h).mp hmem
    exact ⟨hgrant, hown⟩
  · rintro ⟨hgrant, hown⟩
    obtain ⟨mapping, hmapping⟩ := db.grantMapping grant hgrant
    exact ⟨db.mappedGroup mapping, (mem_groupMembershipGrants h).mpr ⟨hgrant, hown, mapping, hmapping, rfl⟩⟩

theorem granted_iff (h : db.findIdentity id = some identity) :
    Granted db id mappingId ↔ ∃ g ∈ identity.groupMembershipGrants, g.1.groupMappingId = mappingId := by
  constructor
  · rintro ⟨grant, hgrant, hown, hmapping⟩
    obtain ⟨mapped, hmem⟩ := (exists_groupMembershipGrants h).mpr ⟨hgrant, hown⟩
    exact ⟨(grant, mapped), hmem, hmapping⟩
  · rintro ⟨⟨grant, mapped⟩, hmem, hmapping⟩
    obtain ⟨hgrant, hown⟩ := (exists_groupMembershipGrants h).mp ⟨mapped, hmem⟩
    exact ⟨grant, hgrant, hown, hmapping⟩

/-! ## The preview -/

/-- A value matches the mapping. -/
def Target (groupMappings : List MappedGroup) (values : List String) (mappingId : String) : Prop :=
  ∃ mapped ∈ groupMappings, mapped.mapping.id = mappingId ∧ ∃ value ∈ values, matchesValue mapped value = true

theorem mem_matchGroups {groupMappings : List MappedGroup} {values : List String} {matched : List (String × MappedGroup)}
    (h : matchGroups groupMappings values = .ok matched) {m : String × MappedGroup} :
    m ∈ matched ↔ m.1 ∈ values ∧ m.2 ∈ groupMappings ∧ matchesValue m.2 m.1 = true := by
  induction values generalizing matched with
  | nil =>
    cases h
    simp
  | cons value values ih =>
    have hfilter : ∀ mapped, mapped ∈ groupMappings.filter (fun mapped => matchesValue mapped value) ↔
        mapped ∈ groupMappings ∧ matchesValue mapped value = true := fun mapped => List.mem_filter
    unfold matchGroups at h
    split at h
    · next hnone =>
      rw [ih h, List.mem_cons]
      constructor
      · rintro ⟨hv, hrest⟩
        exact ⟨Or.inr hv, hrest⟩
      · rintro ⟨rfl | hv, hmapped, hmatch⟩
        · have hin := (hfilter m.2).mpr ⟨hmapped, hmatch⟩
          rw [hnone] at hin
          cases hin
        · exact ⟨hv, hmapped, hmatch⟩
    · next mapped hone =>
      cases hrest : matchGroups groupMappings values with
      | error e =>
        rw [hrest] at h
        cases h
      | ok rest =>
        rw [hrest] at h
        cases h
        rw [List.mem_cons, ih hrest, List.mem_cons]
        have hself : mapped ∈ groupMappings ∧ matchesValue mapped value = true :=
          (hfilter mapped).mp (hone ▸ List.mem_singleton_self mapped)
        constructor
        · rintro (rfl | ⟨hv, hmapped, hmatch⟩)
          · exact ⟨Or.inl rfl, hself⟩
          · exact ⟨Or.inr hv, hmapped, hmatch⟩
        · rintro ⟨hv, hmapped, hmatch⟩
          rcases hv with hv | hv
          · have hin : m.2 ∈ groupMappings.filter fun mapped => matchesValue mapped value :=
              (hfilter m.2).mpr ⟨hmapped, hv ▸ hmatch⟩
            rw [hone] at hin
            exact Or.inl (Prod.ext hv (List.mem_singleton.mp hin))
          · exact Or.inr ⟨hv, hmapped, hmatch⟩
    · cases h

variable {matched : List (String × MappedGroup)}

/-- Every target is the change of a match of its mapping, and knows whether the mapping has a grant. -/
theorem targetGroups_get? {target : TargetGroup} (h : (targetGroups identity matched).get? mappingId = some target) :
    (∃ m ∈ matched, m.2.mapping.id = mappingId ∧ target.change = groupChange m.2 m.1) ∧
      target.membershipExists = identity.groupMembershipGrants.any fun g => g.1.groupMappingId = mappingId := by
  rcases OrderedMap.mem_of_get?_setAll h with hmem | hnone
  · obtain ⟨m, hm, heq⟩ := List.mem_map.mp hmem
    cases heq
    exact ⟨⟨m, hm, rfl, rfl⟩, rfl⟩
  · cases hnone

theorem targetGroups_isSome (h : matchGroups identity.groupMappings claims.groups = .ok matched) :
    ((targetGroups identity matched).get? mappingId).isSome = true ↔
      Target identity.groupMappings claims.groups mappingId := by
  rw [targetGroups, OrderedMap.get?_setAll_isSome]
  simp only [OrderedMap.get?_empty, Option.isSome_none, Bool.false_eq_true, or_false, List.mem_map, Prod.mk.injEq]
  constructor
  · rintro ⟨-, m, hm, rfl, -⟩
    obtain ⟨hvalue, hmapped, hmatch⟩ := (mem_matchGroups h).mp hm
    exact ⟨m.2, hmapped, rfl, m.1, hvalue, hmatch⟩
  · rintro ⟨mapped, hmapped, rfl, value, hvalue, hmatch⟩
    exact ⟨_, (value, mapped), (mem_matchGroups h).mpr ⟨hvalue, hmapped, hmatch⟩, rfl, rfl⟩

theorem mem_sortGroupChanges {changes : List IdentitySyncGroupChange} {change : IdentitySyncGroupChange} :
    change ∈ sortGroupChanges env changes ↔ change ∈ changes := by
  rw [sortGroupChanges, List.mem_insertionSort]

/-- The parts of a preview that is made. -/
theorem buildPreview_ok (h : buildPreview env identity claims = .ok preview) : ∃ matched next,
    matchGroups identity.groupMappings claims.groups = .ok matched ∧ nextMatch env identity claims = .ok next ∧
      preview.add = sortGroupChanges env
        (((targetGroups identity matched).values.filter fun target => !target.membershipExists).map (·.change)) ∧
      preview.remove = sortGroupChanges env
        (if identity.provider.groupSyncMode = .addOnly then [] else
          (identity.groupMembershipGrants.filter fun g =>
            ((targetGroups identity matched).get? g.1.groupMappingId).isNone).map fun g => ownGroupChange g.2) ∧
      preview.externalIdentityId = identity.identity.id ∧ preview.nextRole = next.map roleChange ∧
      preview.roleChanged = decide
        (identity.externalRoleGrant.map (fun role => role.mapping.id) ≠ next.map fun role => role.mapping.id) := by
  simp only [buildPreview, Fallible.bind_eq_ok] at h
  obtain ⟨matched, hmatched, next, hnext, hpreview⟩ := h
  cases hpreview
  refine ⟨matched, next, hmatched, hnext, rfl, ?_, rfl, rfl, rfl⟩
  simp

theorem any_groupMembershipGrants (hload : db.findIdentity id = some identity) :
    (identity.groupMembershipGrants.any fun g => g.1.groupMappingId = mappingId) = true ↔ Granted db id mappingId := by
  rw [granted_iff hload, List.any_eq_true]
  simp

/-- The grants to add are those of the targets that have none. -/
theorem buildPreview_add (hload : db.findIdentity id = some identity)
    (h : buildPreview env identity claims = .ok preview) :
    (∃ change ∈ preview.add, change.mappingId = mappingId) ↔
      Target identity.groupMappings claims.groups mappingId ∧ ¬ Granted db id mappingId := by
  obtain ⟨matched, next, hmatched, -, hadd, -⟩ := buildPreview_ok h
  rw [hadd]
  simp only [mem_sortGroupChanges, List.mem_map, List.mem_filter, OrderedMap.mem_values, Bool.not_eq_true']
  constructor
  · rintro ⟨-, ⟨target, ⟨⟨key, hget⟩, hnew⟩, rfl⟩, rfl⟩
    obtain ⟨⟨m, -, hkey, hchange⟩, hexists⟩ := targetGroups_get? hget
    have hid : target.change.mappingId = key := by rw [hchange, ← hkey]; rfl
    rw [hid, ← targetGroups_isSome hmatched, hget]
    refine ⟨rfl, fun hgranted => ?_⟩
    rw [hexists, (any_groupMembershipGrants hload).mpr hgranted] at hnew
    cases hnew
  · rintro ⟨htarget, hnot⟩
    obtain ⟨target, hget⟩ := Option.isSome_iff_exists.mp ((targetGroups_isSome hmatched).mpr htarget)
    obtain ⟨⟨m, -, hkey, hchange⟩, hexists⟩ := targetGroups_get? hget
    refine ⟨target.change, ⟨target, ⟨⟨mappingId, hget⟩, ?_⟩, rfl⟩, by rw [hchange, ← hkey]; rfl⟩
    rw [hexists, Bool.eq_false_iff]
    exact fun hany => hnot ((any_groupMembershipGrants hload).mp hany)

/-- A grant to add is for the group of its mapping. -/
theorem buildPreview_group (hload : db.findIdentity id = some identity)
    (h : buildPreview env identity claims = .ok preview) {change : IdentitySyncGroupChange}
    (hchange : change ∈ preview.add) :
    ∃ mapping ∈ db.groupMappings, mapping.id = change.mappingId ∧ mapping.groupId = change.groupId := by
  obtain ⟨matched, next, hmatched, -, hadd, -⟩ := buildPreview_ok h
  rw [hadd] at hchange
  simp only [mem_sortGroupChanges, List.mem_map, List.mem_filter, OrderedMap.mem_values] at hchange
  obtain ⟨target, ⟨⟨key, hget⟩, -⟩, rfl⟩ := hchange
  obtain ⟨⟨m, hm, -, hchange⟩, -⟩ := targetGroups_get? hget
  obtain ⟨mapping, hmapping, -, hmapped⟩ := (mem_groupMappings hload).mp ((mem_matchGroups hmatched).mp hm).2.1
  exact ⟨mapping, hmapping, by rw [hchange, hmapped]; rfl, by rw [hchange, hmapped]; rfl⟩

/-- In the managed mode the grants to remove are those without a target. -/
theorem buildPreview_remove (hload : db.findIdentity id = some identity)
    (h : buildPreview env identity claims = .ok preview) :
    (∃ change ∈ preview.remove, change.mappingId = mappingId) ↔ identity.provider.groupSyncMode = .managed ∧
      Granted db id mappingId ∧ ¬ Target identity.groupMappings claims.groups mappingId := by
  obtain ⟨matched, next, hmatched, -, -, hremove, -⟩ := buildPreview_ok h
  have hown : ∀ g ∈ identity.groupMembershipGrants, (ownGroupChange g.2).mappingId = g.1.groupMappingId := by
    intro g hg
    obtain ⟨-, -, mapping, hfind, hmapped⟩ := (mem_groupMembershipGrants hload).mp hg
    rw [hmapped]
    exact (Table.find_eq_some.mp hfind).2
  have hnone : ((targetGroups identity matched).get? mappingId).isNone = true ↔
      ¬ Target identity.groupMappings claims.groups mappingId := by
    rw [← targetGroups_isSome hmatched, Option.isNone_iff_eq_none, ← Option.not_isSome_iff_eq_none]
  rw [hremove, granted_iff hload]
  simp only [mem_sortGroupChanges]
  cases hmode : identity.provider.groupSyncMode with
  | addOnly => simp
  | managed =>
    simp only [reduceCtorEq, if_false, List.mem_map, List.mem_filter, true_and]
    constructor
    · rintro ⟨-, ⟨g, ⟨hg, hunmatched⟩, rfl⟩, rfl⟩
      rw [hown g hg] at hnone ⊢
      exact ⟨⟨g, hg, rfl⟩, hnone.mp hunmatched⟩
    · rintro ⟨⟨g, hg, rfl⟩, hnot⟩
      exact ⟨_, ⟨g, ⟨hg, hnone.mpr hnot⟩, rfl⟩, hown g hg⟩

/-! ## The transaction -/

/-- What adding grants does: grants of the identity for the changes, in memberships that were there or are new. -/
structure Added (id userId : String) (changes : List IdentitySyncGroupChange) (db db' : Db) : Prop where
  grants : ∀ grant ∈ db.grants, grant ∈ db'.grants
  new : ∀ grant ∈ db'.grants, grant ∈ db.grants ∨ grant.externalIdentityId = id ∧
    ∃ change ∈ changes, change.mappingId = grant.groupMappingId ∧
      ∃ m ∈ db'.memberships, m.id = grant.membershipId ∧ m.userId = userId ∧ m.groupId = change.groupId
  granted : ∀ change ∈ changes, Granted db' id change.mappingId
  memberships : ∀ membership ∈ db.memberships, membership ∈ db'.memberships
  created : ∀ membership ∈ db'.memberships, membership ∈ db.memberships ∨
    membership.userId = userId ∧ membership.hasLocalGrant = false ∧ ∃ grant ∈ db'.grants,
      grant.membershipId = membership.id ∧ grant.externalIdentityId = id ∧
        ∃ change ∈ changes, change.mappingId = grant.groupMappingId
  same : SameMappings db db' ∧ db'.identities = db.identities ∧ db'.roleGrants = db.roleGrants

theorem ensureMembership_eq_some {groupId userId newId membership : String}
    (h : ensureMembership db groupId userId newId = some (db', membership)) :
    (∀ m ∈ db.memberships, m ∈ db'.memberships) ∧
      (∀ m ∈ db'.memberships, m ∈ db.memberships ∨ m.userId = userId ∧ m.hasLocalGrant = false ∧ m.id = membership) ∧
      (∃ m ∈ db'.memberships, m.id = membership ∧ m.userId = userId ∧ m.groupId = groupId) ∧
      db'.grants = db.grants ∧ SameMappings db db' ∧ db'.identities = db.identities ∧ db'.roleGrants = db.roleGrants := by
  unfold ensureMembership at h
  split at h
  · next m hfound =>
    cases h
    obtain ⟨hgroup, huser⟩ : m.groupId = groupId ∧ m.userId = userId := by simpa using List.find?_some hfound
    exact ⟨fun _ hm => hm, fun _ hm => Or.inl hm, ⟨m, List.mem_of_find?_eq_some hfound, rfl, huser, hgroup⟩, rfl,
      .refl db, rfl, rfl⟩
  · obtain ⟨memberships, hcreate, heq⟩ := Option.map_eq_some_iff.mp h
    cases heq
    refine ⟨fun m hm => (Table.mem_createMany hcreate).mpr (Or.inl hm), fun m hm => ?_,
      ⟨_, (Table.mem_createMany hcreate).mpr (Or.inr (List.mem_singleton_self _)), rfl, rfl, rfl⟩, rfl,
      ⟨rfl, rfl, rfl, rfl, rfl, rfl⟩, rfl, rfl⟩
    rcases (Table.mem_createMany hcreate).mp hm with hold | hnew
    · exact Or.inl hold
    · obtain rfl := List.mem_singleton.mp hnew
      exact Or.inr ⟨rfl, rfl, rfl⟩

theorem addGroups_added {userId : String} {membershipId : Nat → String} {changes : List IdentitySyncGroupChange} {n : Nat}
    (h : addGroups id userId membershipId changes n db = some db') : Added id userId changes db db' := by
  induction changes generalizing n db with
  | nil =>
    cases h
    exact ⟨fun _ hg => hg, fun _ hg => Or.inl hg, (fun _ hc => nomatch hc), fun _ hm => hm, fun _ hm => Or.inl hm,
      .refl _, rfl, rfl⟩
  | cons change changes ih =>
    simp only [addGroups, Option.bind_eq_bind, Option.bind_eq_some_iff] at h
    obtain ⟨⟨db₁, membership⟩, hensure, db₂, hcreate, hrest⟩ := h
    obtain ⟨hold, hnew, ⟨own, howned, hid, huser, hgroup⟩, hgrants₁, hsame₁, hidentities₁, hroles₁⟩ :=
      ensureMembership_eq_some hensure
    obtain ⟨hgrants₂, hmemberships₂, hsame₂, hidentities₂, hroles₂⟩ := Db.createGrant_eq_some hcreate
    have hadded := ih hrest
    refine ⟨fun grant hgrant => ?_, fun grant hgrant => ?_, fun change' hchange => ?_, fun m hm => ?_, fun m hm => ?_,
      (hsame₁.trans hsame₂).trans hadded.same.1, by rw [hadded.same.2.1, hidentities₂, hidentities₁],
      by rw [hadded.same.2.2, hroles₂, hroles₁]⟩
    · exact hadded.grants grant ((hgrants₂ grant).mpr (Or.inl (hgrants₁ ▸ hgrant)))
    · rcases hadded.new grant hgrant with hgrant | ⟨hown, change', hchange, hmapping⟩
      · rcases (hgrants₂ grant).mp hgrant with hold | rfl
        · exact Or.inl (hgrants₁ ▸ hold)
        · exact Or.inr ⟨rfl, change, List.mem_cons_self, rfl, own, hadded.memberships own (hmemberships₂ ▸ howned),
            hid, huser, hgroup⟩
      · exact Or.inr ⟨hown, change', List.mem_cons_of_mem _ hchange, hmapping⟩
    · rcases List.mem_cons.mp hchange with rfl | hchange
      · exact ⟨_, hadded.grants _ ((hgrants₂ _).mpr (Or.inr rfl)), rfl, rfl⟩
      · exact hadded.granted change' hchange
    · exact hadded.memberships m (hmemberships₂ ▸ hold m hm)
    · rcases hadded.created m hm with hm | hcreated
      · rcases hnew m (hmemberships₂ ▸ hm) with hm | ⟨huser, hlocal, hid⟩
        · exact Or.inl hm
        · exact Or.inr ⟨huser, hlocal, _, hadded.grants _ ((hgrants₂ _).mpr (Or.inr rfl)), hid.symm, rfl, change,
            List.mem_cons_self, rfl⟩
      · obtain ⟨huser, hlocal, grant, hgrant, hid, hown, change', hchange, hmapping⟩ := hcreated
        exact Or.inr ⟨huser, hlocal, grant, hgrant, hid, hown, change', List.mem_cons_of_mem _ hchange, hmapping⟩

/-- What removing grants does: the identity's grants for the changes go, and the memberships of removed grants that have
no grant left, local or external. -/
structure Removed (id : String) (removedMembershipIds : List String) (remove : List IdentitySyncGroupChange)
    (db db' : Db) :
    Prop where
  grants : ∀ grant, grant ∈ db'.grants ↔ grant ∈ db.grants ∧
    ¬(grant.externalIdentityId = id ∧ ∃ change ∈ remove, change.mappingId = grant.groupMappingId)
  memberships : ∀ membership, membership ∈ db'.memberships ↔ membership ∈ db.memberships ∧
    ¬(remove ≠ [] ∧ membership.id ∈ removedMembershipIds ∧ membership.hasLocalGrant = false ∧
      ∀ grant ∈ db'.grants, grant.membershipId ≠ membership.id)

theorem Removed.congr {removedMembershipIds : List String} {remove : List IdentitySyncGroupChange} {db'' : Db}
    (h : Removed id removedMembershipIds remove db db') (hgrants : db''.grants = db'.grants)
    (hmemberships : db''.memberships = db'.memberships) : Removed id removedMembershipIds remove db db'' := by
  constructor
  · rw [hgrants]
    exact h.grants
  · rw [hgrants, hmemberships]
    exact h.memberships

theorem unjustified_iff {removedMembershipIds : List String} {membership : GroupMembership} :
    unjustified removedMembershipIds db membership = true ↔ membership.id ∈ removedMembershipIds ∧
      membership.hasLocalGrant = false ∧ ∀ grant ∈ db.grants, grant.membershipId ≠ membership.id := by
  simp [unjustified, and_assoc, Table.mem_def]

theorem removeGroups_removed {removedMembershipIds : List String} {remove : List IdentitySyncGroupChange} :
    Removed id removedMembershipIds remove db (removeGroups id removedMembershipIds remove db) := by
  by_cases hremove : remove = []
  · subst hremove
    exact ⟨by simp [removeGroups], by simp [removeGroups]⟩
  · rw [removeGroups, if_neg hremove]
    -- a membership that goes has no grants, so its delete takes none with it
    have hsame : ∀ db₁ grant, grant ∈ (Db.deleteMemberships db₁ (unjustified removedMembershipIds db₁)).grants ↔
        grant ∈ db₁.grants := fun db₁ grant =>
      Db.mem_deleteMemberships fun membership hp => (unjustified_iff.mp hp).2.2
    refine ⟨fun grant => ?_, fun membership => ?_⟩
    · rw [hsame, Db.mem_deleteGrants]
      simp
    · simp only [hsame, ne_eq, hremove, not_false_eq_true, true_and]
      rw [← unjustified_iff, Bool.not_eq_true]
      exact Table.mem_deleteMany

theorem removeGroups_same {removedMembershipIds : List String} {remove : List IdentitySyncGroupChange} :
    SameMappings db (removeGroups id removedMembershipIds remove db) ∧
      (removeGroups id removedMembershipIds remove db).identities = db.identities ∧
      (removeGroups id removedMembershipIds remove db).roleGrants = db.roleGrants := by
  unfold removeGroups
  split
  · exact ⟨.refl db, rfl, rfl⟩
  · exact ⟨⟨rfl, rfl, rfl, rfl, rfl, rfl⟩, rfl, rfl⟩

/-- The role grant of the identity is that of the next role; all else stays. -/
theorem changeRole_eq_some (h : changeRole preview db = some db') :
    (∀ grant, grant.externalIdentityId ≠ preview.externalIdentityId → (grant ∈ db'.roleGrants ↔ grant ∈ db.roleGrants)) ∧
      (preview.roleChanged = false → db' = db) ∧
      (preview.roleChanged = true → db'.roleGrants.find preview.externalIdentityId = preview.nextRole.map fun next =>
        ⟨preview.externalIdentityId, next.mappingId, next.roleId⟩) ∧
      db'.grants = db.grants ∧ db'.memberships = db.memberships ∧ SameMappings db db' ∧
        db'.identities = db.identities := by
  unfold changeRole at h
  split at h
  · next hsame =>
    cases h
    have hunchanged : preview.roleChanged = false := by simpa using hsame
    exact ⟨fun _ _ => Iff.rfl, fun _ => rfl, fun hchanged => absurd (hchanged.symm.trans hunchanged) (by decide),
      rfl, rfl, .refl db, rfl⟩
  · next hchanged =>
    have hkept : ∀ grant, grant.externalIdentityId ≠ preview.externalIdentityId →
        (grant ∈ db.roleGrants.deleteMany (·.externalIdentityId = preview.externalIdentityId) ↔
          grant ∈ db.roleGrants) := by
      intro grant hother
      simp [hother]
    have hgone : (db.roleGrants.deleteMany (·.externalIdentityId = preview.externalIdentityId)).find
        preview.externalIdentityId = none := by
      refine Table.find_eq_none.mpr fun grant hgrant hid => ?_
      simp [hid] at hgrant
    dsimp only at h
    split at h
    · next hnone =>
      cases h
      refine ⟨hkept, fun hno => by simp [hno] at hchanged, fun _ => ?_, rfl, rfl, ⟨rfl, rfl, rfl, rfl, rfl, rfl⟩, rfl⟩
      rw [hnone]
      exact hgone
    · next next hsome =>
      obtain ⟨roleGrants, hcreate, rfl⟩ := Option.map_eq_some_iff.mp h
      refine ⟨fun grant hother => ?_, fun hno => by simp [hno] at hchanged, fun _ => ?_, rfl, rfl,
        ⟨rfl, rfl, rfl, rfl, rfl, rfl⟩, rfl⟩
      · rw [← hkept grant hother]
        refine (Table.mem_createMany hcreate).trans ⟨fun hg => ?_, Or.inl⟩
        rcases hg with hg | hg
        · exact hg
        · obtain rfl := List.mem_singleton.mp hg
          exact absurd rfl hother
      · rw [hsome]
        show roleGrants.find _ = _
        rw [Table.find_createMany hcreate, hgone]
        simp

/-- The transaction is one change after the other. -/
theorem transaction_ok {c : Choice} (h : transaction env db id claims c = .ok (db', preview)) : ∃ identity db₁ db₂,
    db.findIdentity id = some identity ∧ buildPreview env identity claims = .ok preview ∧
      addGroups id identity.identity.userId c.membershipId preview.add 0 db = some db₁ ∧
      changeRole preview (removeGroups id (removedMembershipIds identity preview) preview.remove db₁) = some db₂ ∧
      db' = recordSuccess id claims c.now db₂ := by
  unfold transaction at h
  split at h
  · cases h
  · split at h
    · cases h
    · next identity hload =>
      split at h
      · cases h
      · next preview' hpreview =>
        dsimp only at h
        split at h
        · cases h
        · next db₂ hwritten =>
          cases h
          obtain ⟨db₁, hadd, hrole⟩ := Option.bind_eq_some_iff.mp hwritten
          exact ⟨identity, db₁, db₂, hload, hpreview, hadd, hrole, rfl⟩

/-- What it does to grants and memberships: some are added, then some are removed. -/
theorem transaction_written {c : Choice} (hload : db.findIdentity id = some identity)
    (h : transaction env db id claims c = .ok (db', preview)) : buildPreview env identity claims = .ok preview ∧
      ∃ db₁, Added id identity.identity.userId preview.add db db₁ ∧
        Removed id (removedMembershipIds identity preview) preview.remove db₁ db' := by
  obtain ⟨identity', db₁, db₂, hload', hpreview, hadd, hrole, rfl⟩ := transaction_ok h
  obtain rfl : identity = identity' := Option.some.inj (hload.symm.trans hload')
  obtain ⟨-, -, -, hgrants, hmemberships, -, -⟩ := changeRole_eq_some hrole
  exact ⟨hpreview, db₁, addGroups_added hadd, removeGroups_removed.congr hgrants hmemberships⟩

/-- The membership of a grant that the preview removes is one of those that are looked at. -/
theorem mem_removedMembershipIds {grant : ExternalGroupMembershipGrant} {change : IdentitySyncGroupChange}
    (hload : db.findIdentity id = some identity) (hgrant : grant ∈ db.grants) (hown : grant.externalIdentityId = id)
    (hchange : change ∈ preview.remove) (hmapping : change.mappingId = grant.groupMappingId) :
    grant.membershipId ∈ removedMembershipIds identity preview := by
  obtain ⟨mapped, hmem⟩ := (exists_groupMembershipGrants hload).mpr ⟨hgrant, hown⟩
  refine List.mem_map.mpr ⟨(grant, mapped), List.mem_filter.mpr ⟨hmem, ?_⟩, rfl⟩
  exact List.any_eq_true.mpr ⟨change, hchange, by simpa using hmapping⟩

/-- The role grants of other identities stay. -/
theorem transaction_otherRoles {c : Choice} {grant : ExternalRoleGrant}
    (h : transaction env db id claims c = .ok (db', preview)) (hother : grant.externalIdentityId ≠ id) :
    grant ∈ db'.roleGrants ↔ grant ∈ db.roleGrants := by
  obtain ⟨identity, db₁, db₂, hload, hpreview, hadd, hrole, rfl⟩ := transaction_ok h
  obtain ⟨-, -, -, -, -, -, hself, -⟩ := buildPreview_ok hpreview
  rw [findIdentity_id hload] at hself
  show grant ∈ db₂.roleGrants ↔ _
  rw [(changeRole_eq_some hrole).1 grant (hself ▸ hother), removeGroups_same.2.2, (addGroups_added hadd).same.2.2]

theorem transaction_same {c : Choice} (h : transaction env db id claims c = .ok (db', preview)) :
    SameMappings db db' := by
  obtain ⟨identity, db₁, db₂, -, -, hadd, hrole, rfl⟩ := transaction_ok h
  have hsame₂ : SameMappings _ db₂ := (changeRole_eq_some hrole).2.2.2.2.2.1
  have hsame : SameMappings db db₂ := ((addGroups_added hadd).same.1.trans removeGroups_same.1).trans hsame₂
  exact ⟨hsame.users, hsame.groups, hsame.roles, hsame.providers, hsame.groupMappings, hsame.roleMappings⟩

/-- Behind the grant stands a membership of the user in the group of its mapping. -/
def InGroup (db : Db) (userId : String) (grant : ExternalGroupMembershipGrant) : Prop :=
  ∃ membership ∈ db.memberships, membership.id = grant.membershipId ∧ membership.userId = userId ∧
    ∃ mapping ∈ db.groupMappings, mapping.id = grant.groupMappingId ∧ mapping.groupId = membership.groupId

/-- Everything about grants and memberships that a synchronisation promises for an identity of the user `userId`, `target`
being the mappings that the claims match. -/
structure ExactSync (db db' : Db) (id userId : String) (mode : IdentityProviderSyncMode)
    (target : String → Prop) : Prop where
  granted : ∀ mappingId, Granted db' id mappingId ↔ target mappingId ∨ mode = .addOnly ∧ Granted db id mappingId
  kept : ∀ grant ∈ db'.grants, grant.externalIdentityId = id → Granted db id grant.groupMappingId → grant ∈ db.grants
  inGroup : ∀ grant ∈ db'.grants, grant.externalIdentityId = id → (grant ∈ db.grants → InGroup db userId grant) →
    InGroup db' userId grant
  created : ∀ membership ∈ db'.memberships, membership ∈ db.memberships ∨ membership.userId = userId ∧
    membership.hasLocalGrant = false ∧
      ∃ grant ∈ db'.grants, grant.externalIdentityId = id ∧ target grant.groupMappingId ∧
        grant.membershipId = membership.id
  others : ∀ grant, grant.externalIdentityId ≠ id → (grant ∈ db'.grants ↔ grant ∈ db.grants)
  otherRoles : ∀ grant, grant.externalIdentityId ≠ id → (grant ∈ db'.roleGrants ↔ grant ∈ db.roleGrants)
  justified : ∀ membership ∈ db.memberships, membership.hasLocalGrant = true ∨
    (∃ grant ∈ db.grants, grant.membershipId = membership.id ∧ grant.externalIdentityId ≠ id) →
      membership ∈ db'.memberships
  stripped : ∀ membership ∈ db.memberships, membership.hasLocalGrant = false →
    (∃ grant ∈ db.grants, grant.membershipId = membership.id ∧ grant ∉ db'.grants) →
    (∀ grant ∈ db'.grants, grant.membershipId ≠ membership.id) → membership ∉ db'.memberships

section Written

variable {db₁ : Db} {grant : ExternalGroupMembershipGrant} {membership : GroupMembership} {removed : List String}

/-- A membership stays as long as a grant refers to it. -/
theorem Removed.held (h : Removed id removed preview.remove db₁ db') (hm : membership ∈ db₁.memberships)
    (hgrant : grant ∈ db'.grants) (hid : grant.membershipId = membership.id) : membership ∈ db'.memberships :=
  (h.memberships membership).mpr ⟨hm, fun hgone => hgone.2.2.2 grant hgrant hid⟩

theorem others_of_written {userId : String} (hadded : Added id userId preview.add db db₁)
    (hremoved : Removed id removed preview.remove db₁ db') (hother : grant.externalIdentityId ≠ id) :
    grant ∈ db'.grants ↔ grant ∈ db.grants := by
  rw [hremoved.grants]
  constructor
  · rintro ⟨hgrant, -⟩
    rcases hadded.new grant hgrant with hold | ⟨hown, -⟩
    · exact hold
    · exact absurd hown hother
  · exact fun hold => ⟨hadded.grants grant hold, fun hown => hother hown.1⟩

variable (hload : db.findIdentity id = some identity) (hpreview : buildPreview env identity claims = .ok preview)
  (hadded : Added id identity.identity.userId preview.add db db₁)
  (hremoved : Removed id (removedMembershipIds identity preview) preview.remove db₁ db')

include hload hpreview hremoved in
/-- A grant that is there after the additions stays, unless the managed mode removes it. -/
theorem stays_of_written (hgrant : grant ∈ db₁.grants)
    (hreason : Target identity.groupMappings claims.groups grant.groupMappingId ∨
      identity.provider.groupSyncMode = .addOnly) : grant ∈ db'.grants := by
  refine (hremoved.grants grant).mpr ⟨hgrant, fun hgone => ?_⟩
  obtain ⟨hmode, -, hnot⟩ := (buildPreview_remove hload hpreview).mp hgone.2
  rcases hreason with htarget | haddOnly
  · exact hnot htarget
  · rw [hmode] at haddOnly
    cases haddOnly

include hload hpreview hadded hremoved

theorem granted_of_written : Granted db' id mappingId ↔ Target identity.groupMappings claims.groups mappingId ∨
    identity.provider.groupSyncMode = .addOnly ∧ Granted db id mappingId := by
  constructor
  · rintro ⟨grant, hgrant, hown, rfl⟩
    obtain ⟨hgrant, hkept⟩ := (hremoved.grants grant).mp hgrant
    rcases hadded.new grant hgrant with hold | ⟨-, change, hchange, hmapping, -⟩
    · by_cases htarget : Target identity.groupMappings claims.groups grant.groupMappingId
      · exact Or.inl htarget
      · refine Or.inr ⟨?_, grant, hold, hown, rfl⟩
        cases hmode : identity.provider.groupSyncMode with
        | addOnly => rfl
        | managed =>
          exact absurd ⟨hown,
            (buildPreview_remove hload hpreview).mpr ⟨hmode, ⟨grant, hold, hown, rfl⟩, htarget⟩⟩ hkept
    · exact Or.inl ((buildPreview_add hload hpreview).mp ⟨change, hchange, hmapping⟩).1
  · intro hreason
    by_cases hold : Granted db id mappingId
    · obtain ⟨grant, hgrant, hown, rfl⟩ := hold
      exact ⟨grant, stays_of_written hload hpreview hremoved (hadded.grants grant hgrant) (hreason.imp_right And.left),
        hown, rfl⟩
    · rcases hreason with htarget | ⟨-, hgranted⟩
      · obtain ⟨change, hchange, rfl⟩ := (buildPreview_add hload hpreview).mpr ⟨htarget, hold⟩
        obtain ⟨grant, hgrant, hown, hmapping⟩ := hadded.granted change hchange
        exact ⟨grant, stays_of_written hload hpreview hremoved hgrant (Or.inl (hmapping ▸ htarget)), hown, hmapping⟩
      · exact absurd hgranted hold

theorem inGroup_of_written (hmappings : db'.groupMappings = db.groupMappings) (hgrant : grant ∈ db'.grants)
    (hbefore : grant ∈ db.grants → InGroup db identity.identity.userId grant) :
    InGroup db' identity.identity.userId grant := by
  unfold InGroup
  rw [hmappings]
  rcases hadded.new grant ((hremoved.grants grant).mp hgrant).1 with hold |
    ⟨-, change, hchange, hmapping, m, hm, hid, huser, hgroup⟩
  · obtain ⟨m, hm, hid, huser, hmapped⟩ := hbefore hold
    exact ⟨m, hremoved.held (hadded.memberships m hm) hgrant hid.symm, hid, huser, hmapped⟩
  · obtain ⟨mapping, hmem, hsame, htarget⟩ := buildPreview_group hload hpreview hchange
    exact ⟨m, hremoved.held hm hgrant hid.symm, hid, huser, mapping, hmem, hsame.trans hmapping,
      htarget.trans hgroup.symm⟩

theorem created_of_written (hm : membership ∈ db'.memberships) : membership ∈ db.memberships ∨
    membership.userId = identity.identity.userId ∧ membership.hasLocalGrant = false ∧
      ∃ grant ∈ db'.grants, grant.externalIdentityId = id ∧
        Target identity.groupMappings claims.groups grant.groupMappingId ∧ grant.membershipId = membership.id := by
  rcases hadded.created membership ((hremoved.memberships membership).mp hm).1 with
    hold | ⟨huser, hlocal, grant, hgrant, hid, hown, change, hchange, hmapping⟩
  · exact Or.inl hold
  · have htarget := ((buildPreview_add hload hpreview).mp ⟨change, hchange, hmapping⟩).1
    exact Or.inr ⟨huser, hlocal, grant, stays_of_written hload hpreview hremoved hgrant (Or.inl htarget), hown, htarget,
      hid⟩

omit hpreview in
theorem stripped_of_written (hlocal : membership.hasLocalGrant = false)
    (hstripped : ∃ grant ∈ db.grants, grant.membershipId = membership.id ∧ grant ∉ db'.grants)
    (hnone : ∀ grant ∈ db'.grants, grant.membershipId ≠ membership.id) : membership ∉ db'.memberships := by
  intro hm
  obtain ⟨grant, hgrant, hid, hgone⟩ := hstripped
  have hremove : grant.externalIdentityId = id ∧ ∃ change ∈ preview.remove, change.mappingId = grant.groupMappingId := by
    by_contra hkept
    exact hgone ((hremoved.grants grant).mpr ⟨hadded.grants grant hgrant, hkept⟩)
  obtain ⟨hown, change, hchange, hmapping⟩ := hremove
  refine ((hremoved.memberships membership).mp hm).2 ⟨List.ne_nil_of_mem hchange, ?_, hlocal, hnone⟩
  exact hid ▸ mem_removedMembershipIds hload hgrant hown hchange hmapping

end Written

theorem transaction_exact {c : Choice} (hload : db.findIdentity id = some identity)
    (h : transaction env db id claims c = .ok (db', preview)) :
    ExactSync db db' id identity.identity.userId identity.provider.groupSyncMode
      (Target identity.groupMappings claims.groups) := by
  obtain ⟨hpreview, db₁, hadded, hremoved⟩ := transaction_written hload h
  constructor
  case granted => exact fun mappingId => granted_of_written hload hpreview hadded hremoved
  case kept =>
    intro grant hgrant _ hold
    rcases hadded.new grant ((hremoved.grants grant).mp hgrant).1 with hmem | ⟨-, change, hchange, hmapping, -⟩
    · exact hmem
    · exact absurd hold ((buildPreview_add hload hpreview).mp ⟨change, hchange, hmapping⟩).2
  case inGroup =>
    exact fun grant hgrant _ =>
      inGroup_of_written hload hpreview hadded hremoved (transaction_same h).groupMappings hgrant
  case created => exact fun membership => created_of_written hload hpreview hadded hremoved
  case others => exact fun grant => others_of_written hadded hremoved
  case otherRoles => exact fun grant hother => transaction_otherRoles h hother
  case justified =>
    intro membership hm hjust
    refine (hremoved.memberships membership).mpr ⟨hadded.memberships membership hm, ?_⟩
    rintro ⟨-, -, hlocal, hnone⟩
    rcases hjust with hlocal' | ⟨grant, hgrant, hid, hother⟩
    · rw [hlocal] at hlocal'
      cases hlocal'
    · exact hnone grant ((others_of_written hadded hremoved hother).mpr hgrant) hid
  case stripped => exact fun membership _ => stripped_of_written hload hadded hremoved

end AdWiki.Sso
