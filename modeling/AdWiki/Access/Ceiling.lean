import AdWiki.Access.Delegation
import AdWiki.Access.Ways

/-!
# What a delegation changes

For each call: what its success says about the caller's ceiling, and which rows it changes (`setRoleAcls_spec`,
`setUserPermissions_spec`, `assignRole_spec`, `create_spec`).
-/

namespace AdWiki.Access

variable {d d' : Directory} {entries out : List AclEntry} {p : Permission} {roleId userId actorId : String}

/-- The ceiling of a user holds the pair. -/
def Ceiling (d : Directory) (actorId : String) (p : Permission) : Prop :=
  ∃ keys, d.effectivePermissionKeys actorId = .ok keys ∧ p.key ∈ keys

theorem assertMayGrantEntries_ok {u : Unit} (h : d.assertMayGrantEntries actorId entries = .ok u) :
    ∀ p, ⟨p, true⟩ ∈ entries → Ceiling d actorId p := by
  obtain ⟨keys, hkeys, h⟩ := Fallible.bind_eq_ok.mp h
  intro p hp
  refine ⟨keys, hkeys, ?_⟩
  by_contra hno
  refine Fallible.throwIf_eq_ok.mp h (List.any_eq_true.mpr ⟨_, hp, ?_⟩)
  simpa using hno

theorem assertMayAssignRole_ok {u : Unit} (h : d.assertMayAssignRole actorId roleId = .ok u) :
    ∀ p, isPermissionSupported p = true → d.acl roleId p = some true → Ceiling d actorId p := by
  unfold Directory.assertMayAssignRole at h
  split at h
  · cases h
  · next role hrole =>
    obtain rfl : role.id = roleId := (Table.find_eq_some.mp hrole).2
    intro p hp hacl
    refine assertMayGrantEntries_ok h p ?_
    obtain ⟨row, hrow, hallowed⟩ := Option.map_eq_some_iff.mp hacl
    obtain ⟨hmem, hkey⟩ := Table.find_eq_some.mp hrow
    obtain ⟨howner, hresource, haction⟩ : row.roleId = role.id ∧ row.resource = p.resource.text ∧
        row.action = p.action.text := by simpa [Acl.key] using hkey
    refine List.mem_filterMap.mpr ⟨row, List.mem_filter.mpr ⟨hmem, by simpa using howner⟩, ?_⟩
    exact parseAclEntry_eq_some.mpr ⟨hresource.symm, haction.symm, hp, hallowed.symm⟩

theorem accepted_ok {α : Type} {result : Option α} {a : α} (h : Directory.accepted result = .ok a) :
    result = some a := by
  cases result with
  | none => cases h
  | some b =>
    cases h
    rfl

/-! ## Rows of one owner -/

section Rewrite

variable {α : Type} {key : α → String × String × String} {f : α → Bool} {t t' : Table key} {owner x : String}
  {mk : AclEntry → α}

/-- What the new rows of an owner say about a pair. -/
theorem find_dedupe {q : α → Bool} (hq : ∀ e, q (mk e) = true ↔ e.permission = p)
    (hallowed : ∀ e, f (mk e) = e.allowed) :
    (((dedupe entries).map mk).find? q).map f = requested entries p := by
  have hpair : q ∘ mk = fun e => e.permission == p := by
    funext e
    rw [Function.comp, Bool.eq_iff_iff, hq, beq_iff_eq]
  rw [List.find?_map, Option.map_map, hpair, show f ∘ mk = AclEntry.allowed from funext hallowed]
  refine Option.ext fun b => ?_
  rw [requested_eq_some, Option.map_eq_some_iff]
  constructor
  · rintro ⟨e, he, rfl⟩
    obtain ⟨hmem, rfl⟩ := (Rows.find?_key (nodup_dedupe entries) p).mp he
    exact hmem
  · intro hmem
    exact ⟨_, (Rows.find?_key (nodup_dedupe entries) p).mpr ⟨hmem, rfl⟩, rfl⟩

theorem texts_inj {e : AclEntry} : (owner, e.permission.resource.text, e.permission.action.text) =
    (x, p.resource.text, p.action.text) ↔ owner = x ∧ e.permission = p := by
  rw [Prod.mk.injEq, Prod.mk.injEq, Resource.text_inj, Action.text_inj]
  refine and_congr_right fun _ => ?_
  cases e.permission
  cases p
  simp

/-- A pair after the rows of an owner are replaced. -/
theorem find_rewrite (hkey : ∀ e, key (mk e) = (owner, e.permission.resource.text, e.permission.action.text))
    (hallowed : ∀ e, f (mk e) = e.allowed)
    (h : (t.deleteMany fun row => (key row).1 == owner).createMany ((dedupe entries).map mk) = some t') :
    (t'.find (x, p.resource.text, p.action.text)).map f =
      if x = owner then requested entries p else (t.find (x, p.resource.text, p.action.text)).map f := by
  rw [Table.find_createMany h, Table.find_deleteMany]
  by_cases hx : x = owner
  · subst hx
    have hgone : (t.find (x, p.resource.text, p.action.text)).filter (fun row => !((key row).1 == x)) = none := by
      rw [Option.filter_eq_none_iff]
      intro row hrow
      simp [(Table.find_eq_some.mp hrow).2]
    rw [hgone, Option.none_or, if_pos rfl]
    exact find_dedupe (fun e => by rw [decide_eq_true_iff, hkey, texts_inj, and_iff_right rfl]) hallowed
  · have hkept : (t.find (x, p.resource.text, p.action.text)).filter (fun row => !((key row).1 == owner)) =
        t.find (x, p.resource.text, p.action.text) := by
      cases hrow : t.find (x, p.resource.text, p.action.text) with
      | none => rfl
      | some row => simp [(Table.find_eq_some.mp hrow).2, hx]
    rw [hkept, if_neg hx, List.find?_eq_none.mpr, Option.or_none]
    intro r hr
    obtain ⟨e, -, rfl⟩ := List.mem_map.mp hr
    rw [decide_eq_true_iff, hkey, texts_inj]
    exact fun hsame => hx hsame.1.symm

end Rewrite

/-! ## The calls -/

/-- The entries of the role are those of the request; nothing else changes. -/
theorem setRoleAcls_spec (h : d.setRoleAcls roleId entries actorId = .ok (d', out)) :
    (∀ p, requested entries p = some true → Ceiling d actorId p) ∧ (∃ acls, d' = { d with acls := acls }) ∧
      ∀ r p, d'.acl r p = if r = roleId then requested entries p else d.acl r p := by
  unfold Directory.setRoleAcls at h
  split at h
  · cases h
  · obtain ⟨_, hceiling, h⟩ := Fallible.bind_eq_ok.mp h
    obtain ⟨acls, hacls, h⟩ := Fallible.bind_eq_ok.mp h
    cases Fallible.pure_eq_ok.mp h
    refine ⟨fun p hp => assertMayGrantEntries_ok hceiling p (mem_of_requested hp).1, ⟨acls, rfl⟩, fun r p => ?_⟩
    exact find_rewrite (f := Acl.allowed) (fun _ => rfl) (fun _ => rfl) (accepted_ok hacls)

/-- The overrides of the user are the entries of the request; nothing else changes. -/
theorem setUserPermissions_spec (h : d.setUserPermissions userId entries actorId = .ok (d', out)) :
    (∃ user, d.users.find userId = some user ∧ user.isProtected = false) ∧
      (∀ p, requested entries p = some true → Ceiling d actorId p) ∧
      (∃ permissions, (∀ row ∈ permissions, row ∈ d.permissions ∨ row.userId = userId) ∧
        d' = { d with permissions := permissions }) ∧
      ∀ u p, d'.override u p = if u = userId then requested entries p else d.override u p := by
  obtain ⟨-, h⟩ := Fallible.throwIf_bind_eq_ok.mp h
  obtain ⟨_, hmanageable, h⟩ := Fallible.bind_eq_ok.mp h
  obtain ⟨_, hceiling, h⟩ := Fallible.bind_eq_ok.mp h
  obtain ⟨permissions, hpermissions, h⟩ := Fallible.bind_eq_ok.mp h
  cases Fallible.pure_eq_ok.mp h
  refine ⟨?_, fun p hp => assertMayGrantEntries_ok hceiling p (mem_of_requested hp).1, ⟨permissions, ?_, rfl⟩,
    fun r p => ?_⟩
  · unfold Directory.ensureUserIsManageable at hmanageable
    split at hmanageable
    · cases hmanageable
    · next user hu => exact ⟨user, hu, by simpa using Fallible.throwIf_eq_ok.mp hmanageable⟩
  · intro row hrow
    rcases (Table.mem_createMany (accepted_ok hpermissions)).mp hrow with hold | hnew
    · exact Or.inl (Table.mem_deleteMany.mp hold).1
    · obtain ⟨e, -, rfl⟩ := List.mem_map.mp hnew
      exact Or.inr rfl
  · exact find_rewrite (f := UserPermission.allowed) (fun _ => rfl) (fun _ => rfl) (accepted_ok hpermissions)

/-- The user has the role; nothing else changes. -/
theorem assignRole_spec (h : d.assignRole userId roleId actorId = .ok d') :
    ∃ user role, d.users.find userId = some user ∧ user.isProtected = false ∧ d.roles.find roleId = some role ∧
      (∀ p, isPermissionSupported p = true → d.acl roleId p = some true → Ceiling d actorId p) ∧
      (∃ users, (∀ u, users.find u = if u = userId then some { user with roleId := roleId } else d.users.find u) ∧
        d' = { d with users := users }) := by
  obtain ⟨_, hmanageable, h⟩ := Fallible.bind_eq_ok.mp h
  unfold Directory.ensureManageable at hmanageable
  split at hmanageable
  · cases hmanageable
  · next user hu =>
    split at h
    · cases h
    · next role hrole =>
      obtain ⟨_, hceiling, h⟩ := Fallible.bind_eq_ok.mp h
      cases Fallible.pure_eq_ok.mp h
      obtain rfl : role.id = roleId := (Table.find_eq_some.mp hrole).2
      refine ⟨user, role, hu, by simpa using Fallible.throwIf_eq_ok.mp hmanageable, hrole,
        assertMayAssignRole_ok hceiling, _, fun u => ?_, rfl⟩
      rw [Table.find_updateMany]
      by_cases hsame : u = userId
      · subst hsame
        rw [hu, if_pos rfl, Option.map_some, if_pos (by simp [(Table.find_eq_some.mp hu).2])]
      · rw [if_neg hsame]
        cases hother : d.users.find u with
        | none => rfl
        | some other =>
          rw [Option.map_some, if_neg (by simp [(Table.find_eq_some.mp hother).2, hsame])]

/-- There is a new user with the role; nothing else changes. -/
theorem create_spec {input : CreateUserInput} {newId passwordHash : String}
    (h : d.create input newId passwordHash actorId = .ok d') :
    ∃ user role, d.users.find newId = none ∧ user.id = newId ∧ user.roleId = input.roleId ∧ user.isActive = true ∧
      user.isProtected = false ∧ d.roles.find input.roleId = some role ∧
      (∀ p, isPermissionSupported p = true → d.acl input.roleId p = some true → Ceiling d actorId p) ∧
      (∃ users, (∀ u, users.find u = if u = newId then some user else d.users.find u) ∧
        d' = { d with users := users }) := by
  unfold Directory.create at h
  split at h
  · cases h
  · split at h
    · cases h
    · next role hrole =>
      obtain ⟨_, hceiling, h⟩ := Fallible.bind_eq_ok.mp h
      obtain ⟨users, husers, h⟩ := Fallible.bind_eq_ok.mp h
      cases Fallible.pure_eq_ok.mp h
      obtain hid : role.id = input.roleId := (Table.find_eq_some.mp hrole).2
      have hcreate := accepted_ok husers
      have hfresh : d.users.find newId = none := by
        refine Table.find_eq_none.mpr fun other hother hsame => ?_
        have hnodup := users.unique
        unfold Table.createMany at hcreate
        split at hcreate
        · next hu =>
          rw [List.map_append, List.nodup_append] at hu
          exact hu.2.2 _ (List.mem_map_of_mem hother) _ (by simp) hsame
        · cases hcreate
      refine ⟨⟨newId, input.email, input.username, input.displayName, passwordHash, role.id, true, false, true⟩, role,
        hfresh, rfl, hid, rfl, rfl, hrole, hid ▸ assertMayAssignRole_ok hceiling, users, fun u => ?_, rfl⟩
      rw [Table.find_createMany hcreate, List.find?_singleton]
      by_cases hsame : u = newId
      · rw [if_pos hsame, hsame, hfresh, Option.none_or, if_pos (by simp)]
      · rw [if_neg hsame, if_neg (by simpa using Ne.symm hsame), Option.or_none]

end AdWiki.Access
