import AdWiki.Access.Ceiling
import AdWiki.Lib.Runs

/-!
# No escalation by delegation

`Opens` says, from the request and the tables before a call, which pairs the call opens for whom; `opened_iff` shows
that it does. The ceiling of the caller covers the pairs that the request itself hands out (`byRequest_ceiling`), but it
is that of a user with the local role: it does not see an external role, the allowlist of an API key, or that a protected
user with an API key is answered from the rows (`BeyondCeiling`). Other pairs open without a look at it, under a denying
override that is dropped or by an entry outside the catalog. `SafeCall` names the three; `safeCall_of_plain` is the case
in which none of them arises. `delegation_within_ceiling` is the result about one call and about runs.
-/

namespace AdWiki.Access

/-- The foreign keys of the tables. -/
structure Directory.Integrity (d : Directory) : Prop where
  user_role : ∀ u ∈ d.users, ∃ role, d.roles.find u.roleId = some role
  permission_user : ∀ row ∈ d.permissions, ∃ user, d.users.find row.userId = some user
  identity_user : ∀ identity ∈ d.externalIdentities, ∃ user, d.users.find identity.userId = some user

/-- The local role of the user answers on this way. -/
def LocalAnswers (d : Directory) (way : Way) (userId : String) : Prop :=
  way = .session → ∀ g, ¬InForce (d.externalRoleGrantsOf userId) g

/-- The call opens the pair for the user on this way. -/
def Opens (d : Directory) (call : Call) (way : Way) (userId : String) (p : Permission) : Prop :=
  match call with
  | .setRoleAcls roleId entries =>
    d.decidingRole way userId p = some roleId ∧ d.override userId p = none ∧ d.acl roleId p ≠ some true ∧
      requested entries p = some true
  | .setUserPermissions target entries =>
    userId = target ∧ ∃ roleId, d.decidingRole way target p = some roleId ∧
      verdict (d.override target p) (d.acl roleId p) = false ∧
      (requested entries p = some true ∨ requested entries p = none ∧ d.acl roleId p = some true)
  | .assignRole target roleId =>
    userId = target ∧ LocalAnswers d way target ∧ ∃ previous, d.decidingRole way target p = some previous ∧
      d.override target p = none ∧ d.acl previous p ≠ some true ∧ d.acl roleId p = some true
  | .create input newId _ => userId = newId ∧ way.admits p = true ∧ d.acl input.roleId p = some true

/-- The request hands out the pair: by an entry of its own, or by an entry of the catalog of the role it names. -/
def ByRequest (d : Directory) (call : Call) (p : Permission) : Prop :=
  match call with
  | .setRoleAcls _ entries => requested entries p = some true
  | .setUserPermissions _ entries => requested entries p = some true
  | .assignRole _ roleId => isPermissionSupported p = true ∧ d.acl roleId p = some true
  | .create input _ _ => isPermissionSupported p = true ∧ d.acl input.roleId p = some true

/-- The rows refuse the pair: the override of the user does, or there is none and the role has no allowing entry. -/
def RowsRefuse (d : Directory) (userId roleId : String) (p : Permission) : Prop :=
  d.override userId p = some false ∨ d.override userId p = none ∧ d.acl roleId p ≠ some true

/-- What the ceiling of a user does not see of the way the user is authenticated on. -/
inductive BeyondCeiling (d : Directory) (user : User) : Way → Permission → Prop
  /-- A grant is in force, and its role does not have the pair. -/
  | externalRole {g : LoadedGrant} {p : Permission} (unprotected : user.isProtected = false)
      (grant : InForce (d.externalRoleGrantsOf user.id) g) (free : d.override user.id p = none)
      (refused : d.acl g.role.id p ≠ some true) : BeyondCeiling d user .session p
  /-- The allowlist of the API key does not have the pair. -/
  | allowlist {apiKeyId : String} {permissions : List Permission} {p : Permission} (outside : p ∉ permissions) :
      BeyondCeiling d user (.apiKey apiKeyId (some permissions)) p
  /-- With an API key a protected user is answered from the rows. -/
  | protectedKey {apiKeyId : String} {permissions : Option (List Permission)} {p : Permission}
      (isProtected : user.isProtected = true) (refused : RowsRefuse d user.id user.roleId p) :
      BeyondCeiling d user (.apiKey apiKeyId permissions) p

/-- The user has the pair: a protected user without an API key has all; any other needs it in the allowlist, if there is
one, and from the rows. -/
def Entitled (d : Directory) (way : Way) (user : User) (role : Role) (p : Permission) : Prop :=
  way.exempts user = true ∨ way.admits p = true ∧ ¬RowsRefuse d user.id (d.roleIdBy way user role) p

/-- What the ceiling leaves open to a user with the role: no pair is handed out that it does not see rightly, no deny is
dropped and no entry outside the catalog opens a pair, unless the user has it. -/
structure SafeCall (d : Directory) (way : Way) (user : User) (role : Role) (call : Call) : Prop where
  handedOut : ∀ way' userId p, ByRequest d call p → Opens d call way' userId p → ¬BeyondCeiling d user way p
  droppedDeny : ∀ target entries way' roleId p, call = .setUserPermissions target entries →
    d.override target p = some false → requested entries p = none → d.decidingRole way' target p = some roleId →
      d.acl roleId p = some true → Entitled d way user role p
  outsideCatalog : ∀ way' userId p, isPermissionSupported p = false → Opens d call way' userId p →
    Entitled d way user role p

variable {d d' : Directory} {call : Call} {way : Way} {entries : List AclEntry} {p : Permission} {user : User}
  {role : Role} {roleId userId target actorId : String}

theorem verdict_opens {override before after : Option Bool} :
    verdict override before = false ∧ verdict override after = true ↔
      override = none ∧ before ≠ some true ∧ after = some true := by
  cases override <;> cases before <;> cases after <;> simp [verdict]

theorem verdict_eq_true {override acl : Option Bool} :
    verdict override acl = true ↔ override = some true ∨ override = none ∧ acl = some true := by
  cases override <;> cases acl <;> simp [verdict]

/-- Two tables with the same user, overrides, entries and grants answer alike. -/
theorem allows_congr (hu : d'.findUser userId = d.findUser userId)
    (hgrants : d'.externalRoleGrantsOf userId = d.externalRoleGrantsOf userId)
    (hoverride : d'.override userId p = d.override userId p) (hacl : ∀ r, d'.acl r p = d.acl r p) :
    d'.allows way userId p = d.allows way userId p := by
  cases hfound : d.findUser userId with
  | none => rw [allows_of_noUser hfound, allows_of_noUser (hu.trans hfound)]
  | some pair =>
    obtain ⟨user, role⟩ := pair
    have hid : user.id = userId := (Directory.findUser_ids hfound).1
    have hrole : d'.roleIdBy way user role = d.roleIdBy way user role := by
      cases way with
      | session => rw [Directory.roleIdBy, Directory.roleIdBy, hid, hgrants]
      | mcpToken => rfl
      | apiKey _ _ => rfl
    rw [allows_eq hfound, allows_eq (hu.trans hfound), hrole, hoverride, hacl]

/-- Only the rows of a pair can open it. -/
theorem opened_deciding (hfrom : d.decidingRole way userId p = none → d'.allows way userId p = d.exempt way userId)
    (hbefore : d.allows way userId p = false) (hafter : d'.allows way userId p = true) :
    ∃ roleId, d.decidingRole way userId p = some roleId := by
  cases h : d.decidingRole way userId p with
  | some roleId => exact ⟨roleId, rfl⟩
  | none =>
    rw [hfrom h, ← allows_of_not_deciding h, hbefore] at hafter
    cases hafter

theorem opened_setRoleAcls {out : List AclEntry} (h : d.setRoleAcls roleId entries actorId = .ok (d', out)) :
    d.allows way userId p = false ∧ d'.allows way userId p = true ↔
      Opens d (.setRoleAcls roleId entries) way userId p := by
  obtain ⟨-, ⟨acls, rfl⟩, hacl⟩ := setRoleAcls_spec h
  constructor
  · rintro ⟨hbefore, hafter⟩
    have hfrom : d.decidingRole way userId p = none →
        ({ d with acls := acls } : Directory).allows way userId p = d.exempt way userId :=
      fun hnone => allows_of_not_deciding (d := { d with acls := acls }) hnone
    obtain ⟨r, hr⟩ := opened_deciding hfrom hbefore hafter
    rw [allows_of_deciding hr] at hbefore
    rw [allows_of_deciding (d := { d with acls := acls }) hr, hacl] at hafter
    obtain ⟨hfree, hold, hnew⟩ := verdict_opens.mp ⟨hbefore, hafter⟩
    by_cases hsame : r = roleId
    · subst hsame
      rw [if_pos rfl] at hnew
      exact ⟨hr, hfree, hold, hnew⟩
    · rw [if_neg hsame] at hnew
      exact absurd hnew hold
  · rintro ⟨hr, hfree, hold, hnew⟩
    rw [allows_of_deciding hr, allows_of_deciding (d := { d with acls := acls }) hr, hacl, if_pos rfl]
    exact verdict_opens.mpr ⟨hfree, hold, hnew⟩

theorem opened_setUserPermissions {out : List AclEntry}
    (h : d.setUserPermissions target entries actorId = .ok (d', out)) :
    d.allows way userId p = false ∧ d'.allows way userId p = true ↔
      Opens d (.setUserPermissions target entries) way userId p := by
  obtain ⟨-, -, ⟨permissions, -, rfl⟩, hoverride⟩ := setUserPermissions_spec h
  constructor
  · rintro ⟨hbefore, hafter⟩
    have hfrom : d.decidingRole way userId p = none →
        ({ d with permissions := permissions } : Directory).allows way userId p = d.exempt way userId :=
      fun hnone => allows_of_not_deciding (d := { d with permissions := permissions }) hnone
    obtain ⟨r, hr⟩ := opened_deciding hfrom hbefore hafter
    rw [allows_of_deciding hr] at hbefore
    rw [allows_of_deciding (d := { d with permissions := permissions }) hr, hoverride] at hafter
    by_cases hsame : userId = target
    · subst hsame
      rw [if_pos rfl] at hafter
      exact ⟨rfl, r, hr, hbefore, verdict_eq_true.mp hafter⟩
    · rw [if_neg hsame] at hafter
      exact absurd (hbefore.symm.trans hafter) Bool.false_ne_true
  · rintro ⟨rfl, r, hr, hbefore, hnew⟩
    rw [allows_of_deciding hr, allows_of_deciding (d := { d with permissions := permissions }) hr, hoverride, if_pos rfl]
    exact ⟨hbefore, verdict_eq_true.mpr hnew⟩

/-- Where two users' rows lead to, if only the table of users differs. -/
theorem allows_withUsers {users : Table User.id} (h : users.find userId = d.users.find userId) :
    ({ d with users := users } : Directory).allows way userId p = d.allows way userId p := by
  refine allows_congr ?_ rfl rfl fun _ => rfl
  simp only [Directory.findUser, h]

theorem exempts_unprotected (h : user.isProtected = false) : way.exempts user = false := by
  cases way <;> simp [Way.exempts, h]

theorem roleIdBy_local (h : LocalAnswers d way user.id) : d.roleIdBy way user role = role.id := by
  cases way with
  | session => rw [Directory.roleIdBy, effectiveRole_of_none (h rfl)]
  | mcpToken => rfl
  | apiKey _ _ => rfl

/-- A grant in force answers whatever the local role is. -/
theorem roleIdBy_granted {role' : Role} (h : ¬LocalAnswers d way user.id) :
    d.roleIdBy way user role = d.roleIdBy way user role' := by
  unfold LocalAnswers at h
  push Not at h
  obtain ⟨rfl, g, hg⟩ := h
  rw [Directory.roleIdBy, Directory.roleIdBy, effectiveRole_of_inForce hg, effectiveRole_of_inForce hg]

/-- The rows decide on a pair for an active user who is let through. -/
theorem decidingRole_eq_some (hu : d.findUser userId = some (user, role)) (hunprotected : user.isProtected = false) :
    d.decidingRole way userId p = some roleId ↔
      user.isActive = true ∧ way.admits p = true ∧ d.roleIdBy way user role = roleId := by
  simp only [Directory.decidingRole, hu, Option.bind_some, exempts_unprotected hunprotected, true_and]
  split
  · next hcond => simp [hcond.1, hcond.2]
  · next hcond =>
    constructor
    · intro hno
      cases hno
    · rintro ⟨hactive, hadmits, -⟩
      exact absurd ⟨hactive, hadmits⟩ hcond

/-- The answer for a user who is not protected. -/
theorem allows_unprotected (hu : d.findUser userId = some (user, role)) (hunprotected : user.isProtected = false) :
    d.allows way userId p = (user.isActive && (way.admits p &&
      verdict (d.override userId p) (d.acl (d.roleIdBy way user role) p))) := by
  rw [allows_eq hu, exempts_unprotected hunprotected, Bool.false_or]

theorem opened_assignRole (hI : d.Integrity) (h : d.assignRole target roleId actorId = .ok d') :
    d.allows way userId p = false ∧ d'.allows way userId p = true ↔
      Opens d (.assignRole target roleId) way userId p := by
  obtain ⟨user, role, hu, hprotected, hrole, -, users, husers, rfl⟩ := assignRole_spec h
  by_cases hsame : userId = target
  · subst hsame
    obtain ⟨hmem, hid⟩ := Table.find_eq_some.mp hu
    obtain ⟨previous, hprevious⟩ := hI.user_role user hmem
    obtain ⟨-, hroleId⟩ := Table.find_eq_some.mp hrole
    have hold : d.findUser userId = some (user, previous) := Directory.findUser_eq_some.mpr ⟨hu, hprevious⟩
    have hnew : ({ d with users := users } : Directory).findUser userId = some ({ user with roleId := roleId }, role) :=
      Directory.findUser_eq_some.mpr ⟨by rw [husers, if_pos rfl], hrole⟩
    have hbefore : d.allows way userId p = (user.isActive && (way.admits p &&
        verdict (d.override userId p) (d.acl (d.roleIdBy way user previous) p))) := allows_unprotected hold hprotected
    have hafter : ({ d with users := users } : Directory).allows way userId p = (user.isActive && (way.admits p &&
        verdict (d.override userId p) (d.acl (d.roleIdBy way user role) p))) := by
      rw [allows_unprotected hnew hprotected]
      rfl
    rw [hbefore, hafter]
    constructor
    · rintro ⟨hno, hyes⟩
      obtain ⟨hactive, hrest⟩ := Bool.and_eq_true_iff.mp hyes
      obtain ⟨hadmits, hverdict⟩ := Bool.and_eq_true_iff.mp hrest
      rw [hactive, hadmits, Bool.true_and, Bool.true_and] at hno
      by_cases hanswers : LocalAnswers d way userId
      · rw [roleIdBy_local (hid ▸ hanswers), hroleId] at hverdict
        obtain ⟨hfree, hacl, hgranted⟩ := verdict_opens.mp ⟨hno, hverdict⟩
        have hdecides := (decidingRole_eq_some hold hprotected).mpr ⟨hactive, hadmits, rfl⟩
        exact ⟨rfl, hanswers, _, hdecides, hfree, hacl, hgranted⟩
      · rw [roleIdBy_granted (hid ▸ hanswers), hno] at hverdict
        cases hverdict
    · rintro ⟨-, hanswers, r, hr, hfree, hacl, hgranted⟩
      obtain ⟨hactive, hadmits, rfl⟩ := (decidingRole_eq_some hold hprotected).mp hr
      have hlocal : d.roleIdBy way user role = role.id := roleIdBy_local (hid ▸ hanswers)
      rw [hactive, hadmits, Bool.true_and, Bool.true_and, hlocal, hroleId]
      exact verdict_opens.mpr ⟨hfree, hacl, hgranted⟩
  · have hsteady : ({ d with users := users } : Directory).allows way userId p = d.allows way userId p :=
      allows_withUsers (by rw [husers, if_neg hsame])
    rw [hsteady]
    constructor
    · rintro ⟨hno, hyes⟩
      exact absurd (hno.symm.trans hyes) Bool.false_ne_true
    · rintro ⟨htarget, -⟩
      exact absurd htarget hsame

/-- A user that does not exist has neither overrides nor grants. -/
theorem Directory.Integrity.noRows (hI : d.Integrity) (hnew : d.users.find userId = none) :
    d.override userId p = none ∧ d.externalRoleGrantsOf userId = [] := by
  constructor
  · refine Option.map_eq_none_iff.mpr (Table.find_eq_none.mpr fun row hrow hkey => ?_)
    obtain ⟨user, hu⟩ := hI.permission_user row hrow
    have howner : row.userId = userId := congrArg Prod.fst hkey
    rw [howner, hnew] at hu
    cases hu
  · rw [Directory.externalRoleGrantsOf, List.filter_eq_nil_iff.mpr, List.filterMap_nil]
    intro identity hidentity howner
    obtain ⟨user, hu⟩ := hI.identity_user identity hidentity
    rw [beq_iff_eq.mp howner, hnew] at hu
    cases hu

theorem opened_create (hI : d.Integrity) {input : CreateUserInput} {newId passwordHash : String}
    (h : d.create input newId passwordHash actorId = .ok d') :
    d.allows way userId p = false ∧ d'.allows way userId p = true ↔
      Opens d (.create input newId passwordHash) way userId p := by
  obtain ⟨user, role, hfresh, hid, hroleId, hactive, hprotected, hrole, -, users, husers, rfl⟩ := create_spec h
  by_cases hsame : userId = newId
  · subst hsame
    obtain ⟨hoverride, hgrants⟩ := hI.noRows (p := p) hfresh
    have hnone : d.findUser userId = none := by rw [Directory.findUser, hfresh]; rfl
    have hnew : ({ d with users := users } : Directory).findUser userId = some (user, role) :=
      Directory.findUser_eq_some.mpr ⟨by rw [husers, if_pos rfl], by rw [hroleId]; exact hrole⟩
    have hdecides : ({ d with users := users } : Directory).roleIdBy way user role = input.roleId := by
      refine (roleIdBy_local fun _ g hg => ?_).trans (Table.find_eq_some.mp hrole).2
      have hmem : g ∈ d.externalRoleGrantsOf user.id := hg.mem
      rw [hid, hgrants] at hmem
      exact absurd hmem List.not_mem_nil
    have hverdict : verdict (d.override userId p) (d.acl input.roleId p) = true ↔ d.acl input.roleId p = some true := by
      rw [hoverride, verdict_eq_true]
      simp
    rw [allows_of_noUser hnone, allows_unprotected hnew hprotected, hactive, hdecides]
    show false = false ∧ (true && (way.admits p && verdict (d.override userId p) (d.acl input.roleId p))) = true ↔
      userId = userId ∧ way.admits p = true ∧ d.acl input.roleId p = some true
    rw [Bool.true_and, Bool.and_eq_true_iff, hverdict]
    simp
  · have hsteady : ({ d with users := users } : Directory).allows way userId p = d.allows way userId p :=
      allows_withUsers (by rw [husers, if_neg hsame])
    rw [hsteady]
    constructor
    · rintro ⟨hno, hyes⟩
      exact absurd (hno.symm.trans hyes) Bool.false_ne_true
    · rintro ⟨htarget, -⟩
      exact absurd htarget hsame

/-! ## Any call, and any run -/

/-- What a successful call opens is what `Opens` says. -/
theorem opened_iff (hI : d.Integrity) (h : d.perform actorId call = .ok d') :
    d.allows way userId p = false ∧ d'.allows way userId p = true ↔ Opens d call way userId p := by
  cases call with
  | setRoleAcls roleId entries =>
    obtain ⟨⟨_, out⟩, hset, rfl⟩ := Fallible.map_eq_ok h
    exact opened_setRoleAcls hset
  | setUserPermissions target entries =>
    obtain ⟨⟨_, out⟩, hset, rfl⟩ := Fallible.map_eq_ok h
    exact opened_setUserPermissions hset
  | assignRole target roleId => exact opened_assignRole hI h
  | create input newId passwordHash => exact opened_create hI h

/-- The caller's ceiling holds what the request hands out. -/
theorem byRequest_ceiling (h : d.perform actorId call = .ok d') (hp : ByRequest d call p) : Ceiling d actorId p := by
  cases call with
  | setRoleAcls roleId entries =>
    obtain ⟨⟨_, out⟩, hset, rfl⟩ := Fallible.map_eq_ok h
    exact (setRoleAcls_spec hset).1 p hp
  | setUserPermissions target entries =>
    obtain ⟨⟨_, out⟩, hset, rfl⟩ := Fallible.map_eq_ok h
    exact (setUserPermissions_spec hset).2.1 p hp
  | assignRole target roleId =>
    obtain ⟨_, _, -, -, -, hceiling, -⟩ := assignRole_spec h
    exact hceiling p hp.1 hp.2
  | create input newId passwordHash =>
    obtain ⟨_, _, -, -, -, -, -, -, hceiling, -⟩ := create_spec h
    exact hceiling p hp.1 hp.2

/-- A user with an existing role, added or changed, keeps the foreign keys. -/
theorem integrity_withUsers (hI : d.Integrity) {users : Table User.id} {id : String}
    (husers : ∀ u, users.find u = if u = id then some user else d.users.find u)
    (hrole : ∃ role, d.roles.find user.roleId = some role) : ({ d with users := users } : Directory).Integrity := by
  have hkept : ∀ u, (∃ user, d.users.find u = some user) → ∃ user, users.find u = some user := by
    rintro u ⟨old, hold⟩
    rw [husers]
    split
    · exact ⟨user, rfl⟩
    · exact ⟨old, hold⟩
  refine ⟨fun u hmem => ?_, fun row hrow => hkept _ (hI.permission_user row hrow),
    fun identity hidentity => hkept _ (hI.identity_user identity hidentity)⟩
  have hfound : users.find u.id = some u := Table.find_of_mem hmem
  rw [husers] at hfound
  split at hfound
  · cases hfound
    exact hrole
  · exact hI.user_role u (Table.find_eq_some.mp hfound).1

/-- A call keeps the foreign keys. -/
theorem integrity_perform (hI : d.Integrity) (h : d.perform actorId call = .ok d') : d'.Integrity := by
  cases call with
  | setRoleAcls roleId entries =>
    obtain ⟨⟨_, out⟩, hset, rfl⟩ := Fallible.map_eq_ok h
    obtain ⟨-, ⟨acls, rfl⟩, -⟩ := setRoleAcls_spec hset
    exact ⟨hI.user_role, hI.permission_user, hI.identity_user⟩
  | setUserPermissions target entries =>
    obtain ⟨⟨_, out⟩, hset, rfl⟩ := Fallible.map_eq_ok h
    obtain ⟨⟨user, hu, -⟩, -, ⟨permissions, hrows, rfl⟩, -⟩ := setUserPermissions_spec hset
    refine ⟨hI.user_role, fun row hrow => ?_, hI.identity_user⟩
    rcases hrows row hrow with hold | howner
    · exact hI.permission_user row hold
    · exact ⟨user, howner ▸ hu⟩
  | assignRole target roleId =>
    obtain ⟨user, role, -, -, hrole, -, users, husers, rfl⟩ := assignRole_spec h
    exact integrity_withUsers hI husers ⟨role, hrole⟩
  | create input newId passwordHash =>
    obtain ⟨user, role, -, -, hroleId, -, -, hrole, -, users, husers, rfl⟩ := create_spec h
    exact integrity_withUsers hI husers ⟨role, by rw [hroleId]; exact hrole⟩

theorem byRequest_supported (hp : ByRequest d call p) : isPermissionSupported p = true := by
  cases call with
  | setRoleAcls roleId entries => exact (mem_of_requested hp).2
  | setUserPermissions target entries => exact (mem_of_requested hp).2
  | assignRole target roleId => exact hp.1
  | create input newId passwordHash => exact hp.1

/-- A pair that opens without being handed out opens by a dropped deny or by an entry outside the catalog. -/
theorem opens_besides (hopens : Opens d call way userId p) (hno : ¬ByRequest d call p) :
    (∃ target entries roleId, call = .setUserPermissions target entries ∧ d.override target p = some false ∧
      requested entries p = none ∧ d.decidingRole way target p = some roleId ∧ d.acl roleId p = some true) ∨
      isPermissionSupported p = false := by
  cases call with
  | setRoleAcls roleId entries => exact absurd hopens.2.2.2 hno
  | setUserPermissions target entries =>
    obtain ⟨-, roleId, hdeciding, hrefused, hrequest | ⟨hsilent, hacl⟩⟩ := hopens
    · exact absurd hrequest hno
    · refine Or.inl ⟨target, entries, roleId, rfl, ?_, hsilent, hdeciding, hacl⟩
      rw [hacl] at hrefused
      cases hoverride : d.override target p with
      | none =>
        rw [hoverride] at hrefused
        cases hrefused
      | some allowed =>
        rw [hoverride] at hrefused
        exact congrArg some hrefused
  | assignRole target roleId =>
    obtain ⟨-, -, -, -, -, -, hacl⟩ := hopens
    exact Or.inr (Bool.eq_false_iff.mpr fun hp => hno ⟨hp, hacl⟩)
  | create input newId passwordHash =>
    obtain ⟨-, -, hacl⟩ := hopens
    exact Or.inr (Bool.eq_false_iff.mpr fun hp => hno ⟨hp, hacl⟩)

/-! ## The actor -/

section Actor

variable {actor : AuthenticatedUser}

theorem not_rowsRefuse : ¬RowsRefuse d userId roleId p ↔ verdict (d.override userId p) (d.acl roleId p) = true := by
  unfold RowsRefuse
  cases d.override userId p <;> cases d.acl roleId p <;> simp [verdict]

/-- An actor is a user of the tables. -/
theorem actor_user (h : d.actor way userId = some actor) :
    ∃ user role, d.findUser userId = some (user, role) ∧ actor.id = userId := by
  cases hu : d.findUser userId with
  | none =>
    cases way <;> simp [Directory.actor, Directory.validateUser, Directory.resolveUser, hu] at h
  | some pair =>
    obtain ⟨user, role⟩ := pair
    refine ⟨user, role, rfl, ?_⟩
    rw [← (Directory.findUser_ids hu).1]
    cases way with
    | session =>
      simp only [Directory.actor, Directory.validateUser, Directory.resolveUser, hu, Bool.false_eq_true, if_false,
        Option.map_some, Option.some_or] at h
      split at h
      · cases h
        rfl
      · cases h
    | mcpToken =>
      simp only [Directory.actor, hu, Option.bind_some] at h
      split at h
      · cases h
        rfl
      · cases h
    | apiKey apiKeyId permissions =>
      simp only [Directory.actor, hu, Option.bind_some] at h
      split at h
      · cases h
        rfl
      · cases h

theorem isAllowed_iff_entitled (hu : d.findUser userId = some (user, role)) (h : d.actor way userId = some actor) :
    d.isAllowed actor p = true ↔ Entitled d way user role p := by
  rw [(isAllowed_actor hu h).2, Entitled, not_rowsRefuse, (Directory.findUser_ids hu).1, Bool.or_eq_true,
    Bool.and_eq_true]

/-- Of a pair of the catalog, the ceiling says what the rows with the local role say. -/
theorem ceiling_rows (hu : d.findUser userId = some (user, role)) (hunprotected : user.isProtected = false)
    (hp : isPermissionSupported p = true) (h : Ceiling d userId p) : ¬RowsRefuse d user.id user.roleId p := by
  obtain ⟨keys, hkeys, hmem⟩ := h
  obtain ⟨keys', hkeys', hlocal⟩ := mem_effectivePermissionKeys hu hunprotected hp
  rw [hkeys] at hkeys'
  cases hkeys'
  exact not_rowsRefuse.mpr (hlocal.mp hmem)

/-- A user has the pairs of the ceiling that are not beyond it. -/
theorem entitled_of_ceiling (hu : d.findUser userId = some (user, role)) (hp : isPermissionSupported p = true)
    (h : Ceiling d userId p) : Entitled d way user role p ↔ ¬BeyondCeiling d user way p := by
  obtain ⟨-, hrole⟩ := Directory.findUser_ids hu
  have hrows : user.isProtected = false → ¬RowsRefuse d user.id user.roleId p := fun hno => ceiling_rows hu hno hp h
  cases way with
  | session =>
    show (user.isProtected = true ∨ true = true ∧
      ¬RowsRefuse d user.id (effectiveRole role (d.externalRoleGrantsOf user.id)).id p) ↔ _
    constructor
    · rintro hentitled (⟨hunprotected, hg, hfree, hrefused⟩ | _ | _)
      rcases hentitled with hprotected | ⟨-, hkept⟩
      · rw [hunprotected] at hprotected
        cases hprotected
      · rw [effectiveRole_of_inForce hg] at hkept
        exact hkept (Or.inr ⟨hfree, hrefused⟩)
    · intro hseen
      cases hprotected : user.isProtected with
      | true => exact Or.inl rfl
      | false =>
        refine Or.inr ⟨rfl, ?_⟩
        rcases effectiveRole_cases role (d.externalRoleGrantsOf user.id) with ⟨g, hg, heff⟩ | ⟨-, heff⟩
        · rw [heff]
          rintro (hdeny | ⟨hfree, hrefused⟩)
          · exact hrows hprotected (Or.inl hdeny)
          · exact hseen (.externalRole hprotected hg hfree hrefused)
        · rw [heff, hrole]
          exact hrows hprotected
  | mcpToken =>
    show (user.isProtected = true ∨ true = true ∧ ¬RowsRefuse d user.id role.id p) ↔ _
    refine iff_of_true ?_ (by rintro (_ | _ | _))
    cases hprotected : user.isProtected with
    | true => exact Or.inl rfl
    | false => exact Or.inr ⟨rfl, hrole ▸ hrows hprotected⟩
  | apiKey apiKeyId permissions =>
    show (false = true ∨ (Way.apiKey apiKeyId permissions).admits p = true ∧ ¬RowsRefuse d user.id role.id p) ↔ _
    rw [hrole]
    constructor
    · rintro hentitled (_ | houtside | ⟨-, hrefused⟩)
      · rcases hentitled with hno | ⟨hadmits, -⟩
        · cases hno
        · exact houtside (by simpa [Way.admits] using hadmits)
      · rcases hentitled with hno | ⟨-, hkept⟩
        · cases hno
        · exact hkept hrefused
    · intro hseen
      refine Or.inr ⟨?_, ?_⟩
      · cases permissions with
        | none => rfl
        | some allowlist =>
          by_contra hno
          exact hseen (.allowlist fun hmem => hno (by simpa [Way.admits] using hmem))
      · cases hprotected : user.isProtected with
        | true => exact fun hrefused => hseen (.protectedKey hprotected hrefused)
        | false => exact hrows hprotected

/-- A call is safe if its user has the local role and no API key, it drops no deny, and no role has an allowing entry
outside the catalog. -/
theorem safeCall_of_plain (hway : ∀ apiKeyId permissions, way ≠ .apiKey apiKeyId permissions)
    (hlocal : LocalAnswers d way user.id) (hcatalog : ∀ r p, d.acl r p = some true → isPermissionSupported p = true)
    (hdenies : ∀ target entries p, call = .setUserPermissions target entries → d.override target p = some false →
      requested entries p ≠ none) : SafeCall d way user role call := by
  refine ⟨?_, fun target entries _ _ p hcall hdeny hsilent => absurd hsilent (hdenies target entries p hcall hdeny), ?_⟩
  · rintro - - p - - (⟨-, hg, -, -⟩ | _ | _)
    · exact hlocal rfl _ hg
    · exact hway _ _ rfl
    · exact hway _ _ rfl
  · intro way' userId p hp hopens
    have hsupported : isPermissionSupported p = true := by
      cases call with
      | setRoleAcls roleId entries => exact (mem_of_requested hopens.2.2.2).2
      | setUserPermissions target entries =>
        obtain ⟨-, roleId, -, -, hrequest | ⟨-, hacl⟩⟩ := hopens
        · exact (mem_of_requested hrequest).2
        · exact hcatalog _ _ hacl
      | assignRole target roleId => exact hcatalog _ _ hopens.2.2.choose_spec.2.2.2
      | create input newId passwordHash => exact hcatalog _ _ hopens.2.2
    rw [hp] at hsupported
    cases hsupported

end Actor

/-! ## Calls and runs -/

/-- A call by a user who is authenticated on a way. -/
structure Delegation where
  way : Way
  actorId : String
  call : Call

def delegate (d : Directory) (l : Delegation) : Option Directory :=
  (d.actor l.way l.actorId).bind fun actor => (d.perform actor.id l.call).toOption

/-- The call is safe for the user who makes it. -/
def Safe (d : Directory) (l : Delegation) : Prop :=
  ∀ user role, d.findUser l.actorId = some (user, role) → SafeCall d l.way user role l.call

variable {l : Delegation} {actor : AuthenticatedUser}

theorem delegate_eq_some (h : delegate d l = some d') :
    ∃ actor, d.actor l.way l.actorId = some actor ∧ d.perform actor.id l.call = .ok d' := by
  obtain ⟨actor, hactor, h⟩ := Option.bind_eq_some_iff.mp h
  refine ⟨actor, hactor, ?_⟩
  cases hperform : d.perform actor.id l.call with
  | error e =>
    rw [hperform] at h
    cases h
  | ok t =>
    rw [hperform] at h
    cases h
    rfl

theorem allows_of_actor (h : d.actor way userId = some actor) : d.allows way userId p = d.isAllowed actor p := by
  rw [Directory.allows, h, Option.any_some]

/-- A successful call opens only what the actor is allowed, exactly where it is safe. -/
theorem own_iff_safe (hI : d.Integrity) (hactor : d.actor l.way l.actorId = some actor)
    (h : d.perform actor.id l.call = .ok d') :
    (∀ way userId p, d.allows way userId p = false → d'.allows way userId p = true → d.isAllowed actor p = true) ↔
      Safe d l := by
  obtain ⟨user, role, hu, hid⟩ := actor_user hactor
  have hentitled : ∀ p, d.isAllowed actor p = true ↔ Entitled d l.way user role p :=
    fun p => isAllowed_iff_entitled hu hactor
  have hceiling : ∀ p, ByRequest d l.call p → (Entitled d l.way user role p ↔ ¬BeyondCeiling d user l.way p) :=
    fun p hp => entitled_of_ceiling hu (byRequest_supported hp) (hid ▸ byRequest_ceiling h hp)
  constructor
  · intro hown user' role' hu'
    rw [hu] at hu'
    cases hu'
    have hopens : ∀ way userId p, Opens d l.call way userId p → Entitled d l.way user role p := by
      intro way userId p hopens
      obtain ⟨hbefore, hafter⟩ := (opened_iff hI h).mpr hopens
      exact (hentitled p).mp (hown way userId p hbefore hafter)
    refine ⟨fun way userId p hp ho => (hceiling p hp).mp (hopens way userId p ho), ?_,
      fun way userId p _ ho => hopens way userId p ho⟩
    intro target entries way roleId p hcall hdeny hsilent hdeciding hacl
    refine hopens way target p ?_
    rw [hcall]
    refine ⟨rfl, roleId, hdeciding, ?_, Or.inr ⟨hsilent, hacl⟩⟩
    rw [hdeny]
    rfl
  · intro hsafe way userId p hbefore hafter
    have hopens : Opens d l.call way userId p := (opened_iff hI h).mp ⟨hbefore, hafter⟩
    rw [hentitled]
    by_cases hrequest : ByRequest d l.call p
    · exact (hceiling p hrequest).mpr ((hsafe user role hu).handedOut way userId p hrequest hopens)
    · rcases opens_besides hopens hrequest with ⟨target, entries, roleId, hcall, hdeny, hsilent, hdeciding, hacl⟩ | hp
      · exact (hsafe user role hu).droppedDeny target entries way roleId p hcall hdeny hsilent hdeciding hacl
      · exact (hsafe user role hu).outsideCatalog way userId p hp hopens

/-- **No escalation by delegation.** For every actor a successful call opens only pairs that the actor is allowed,
exactly where it is safe; and no run of safe calls by actors within a set `P` of pairs opens a pair outside `P` for
anyone. -/
theorem delegation_within_ceiling (hI : d.Integrity) :
    (∀ l actor d', d.actor l.way l.actorId = some actor → d.perform actor.id l.call = .ok d' →
      ((∀ way userId p, d.allows way userId p = false → d'.allows way userId p = true → d.isAllowed actor p = true) ↔
        Safe d l)) ∧
    (∀ (P : Permission → Prop) (ls : List Delegation) d', Runs.Along delegate Safe d ls →
      Runs.run delegate d ls = some d' → (∀ l ∈ ls, ∀ p, d.allows l.way l.actorId p = true → P p) →
      ∀ way userId p, d'.allows way userId p = true → d.allows way userId p = true ∨ P p) := by
  refine ⟨fun l actor d' hactor h => own_iff_safe hI hactor h, fun P ls d' hsafe hrun hwithin => ?_⟩
  have hstep : ∀ (s : Directory) (l : Delegation) (t : Directory),
      (s.Integrity ∧ ∀ way userId p, s.allows way userId p = true → d.allows way userId p = true ∨ P p) →
      (Safe s l ∧ ∀ p, d.allows l.way l.actorId p = true → P p) → delegate s l = some t →
      t.Integrity ∧ ∀ way userId p, t.allows way userId p = true → d.allows way userId p = true ∨ P p := by
    rintro s l t ⟨hIs, hs⟩ ⟨hsafe, hl⟩ ht
    obtain ⟨actor, hactor, hperform⟩ := delegate_eq_some ht
    refine ⟨integrity_perform hIs hperform, fun way userId p hafter => ?_⟩
    cases hbefore : s.allows way userId p with
    | true => exact hs way userId p hbefore
    | false =>
      have hown := (own_iff_safe hIs hactor hperform).mpr hsafe way userId p hbefore hafter
      rw [← allows_of_actor hactor] at hown
      exact Or.inr ((hs l.way l.actorId p hown).elim (hl p) id)
  exact (Runs.inv_run_along hstep ⟨hI, fun way userId p h => Or.inl h⟩ (Runs.along_and_labels hsafe hwithin) hrun).2

/-! ## A deny that is dropped -/

namespace Demo

def manager : User := ⟨"manager", "manager@wiki", "manager", "Manager", "", "manager", true, false, true⟩

def editor : User := ⟨"editor", "editor@wiki", "editor", "Editor", "", "editor", true, false, true⟩

/-- A manager who may change overrides, and an editor whose right to edit pages was taken away. -/
def denied : Directory where
  roles := ⟨[⟨"manager", "manager"⟩, ⟨"editor", "editor"⟩], by decide⟩
  users := ⟨[manager, editor], by decide⟩
  acls := ⟨[⟨"manager", "user_permissions", "update", true⟩, ⟨"manager", "pages", "read", true⟩,
    ⟨"editor", "pages", "update", true⟩], by decide⟩
  permissions := .single ⟨"editor", "pages", "update", false⟩
  providers := .empty
  roleMappings := .empty
  externalIdentities := .empty
  externalRoleGrants := .empty

theorem denied_integrity : denied.Integrity := by
  refine ⟨?_, ?_, ?_⟩
  · intro u hu
    have hall : denied.users.rows.all fun u => (denied.roles.find u.roleId).isSome := by decide +kernel
    exact Option.isSome_iff_exists.mp (List.all_eq_true.mp hall u hu)
  · intro row hrow
    have hall : denied.permissions.rows.all fun row => (denied.users.find row.userId).isSome := by decide +kernel
    exact Option.isSome_iff_exists.mp (List.all_eq_true.mp hall row hrow)
  · intro identity hidentity
    exact absurd hidentity List.not_mem_nil

/-- The manager lets the editor read pages and keeps the deny. -/
def grantRead : Delegation :=
  ⟨.session, "manager", .setUserPermissions "editor" [⟨⟨.pages, .read⟩, true⟩, ⟨⟨.pages, .update⟩, false⟩]⟩

/-- What a check of all pairs of the matrix says of each. -/
theorem forall_permissions {q : Permission → Bool} (h : (resources.all fun r => actions.all fun a => q ⟨r, a⟩) = true)
    (p : Permission) : q p = true :=
  List.all_eq_true.mp (List.all_eq_true.mp h p.resource (mem_resources _)) p.action (mem_actions _)

theorem override_editor (p : Permission) (h : denied.override "editor" p = some false) : p = ⟨.pages, .update⟩ := by
  have hall := forall_permissions (q := fun p => denied.override "editor" p != some false || p == ⟨.pages, .update⟩)
    (by decide +kernel) p
  simpa [h] using hall

theorem allows_manager (p : Permission) (h : denied.allows .session "manager" p = true) :
    p ∈ [⟨.userPermissions, .update⟩, (⟨.pages, .read⟩ : Permission)] := by
  have hall := forall_permissions
    (q := fun p => !denied.allows .session "manager" p || [⟨.userPermissions, .update⟩, ⟨.pages, .read⟩].contains p)
    (by decide +kernel) p
  simpa [h] using hall

theorem grantRead_safe : Safe denied grantRead := by
  intro user role hu
  have hid : user.id = "manager" := (Directory.findUser_ids hu).1
  refine safeCall_of_plain (by intro _ _ hkey; cases hkey) (fun _ g hg => ?_) ?_ ?_
  · have hnone : denied.externalRoleGrantsOf "manager" = [] := by decide +kernel
    rw [hid, hnone] at hg
    exact List.not_mem_nil hg.mem
  · intro r p hacl
    obtain ⟨row, hrow, -⟩ := Option.map_eq_some_iff.mp hacl
    obtain ⟨hmem, hkey⟩ := Table.find_eq_some.mp hrow
    have hall : denied.acls.rows.all fun row => (resources.all fun r => actions.all fun a =>
        isPermissionSupported ⟨r, a⟩ || !(row.resource == r.text && row.action == a.text)) := by decide +kernel
    have hrowAll := forall_permissions
      (q := fun p => isPermissionSupported p || !(row.resource == p.resource.text && row.action == p.action.text))
      (List.all_eq_true.mp hall row hmem) p
    have htexts : row.resource = p.resource.text ∧ row.action = p.action.text := by
      rw [Acl.key] at hkey
      simp only [Prod.mk.injEq] at hkey
      exact hkey.2
    simpa [htexts.1, htexts.2] using hrowAll
  · intro target entries p hcall hdeny
    cases hcall
    rw [override_editor p hdeny]
    decide +kernel

end Demo

/-- After the call nobody may do more than before, apart from what the manager may do. -/
theorem delegation_within_ceiling_read : ∃ d', Runs.run delegate Demo.denied [Demo.grantRead] = some d' ∧
    ∀ way userId p, d'.allows way userId p = true → Demo.denied.allows way userId p = true ∨
      p ∈ [⟨.userPermissions, .update⟩, (⟨.pages, .read⟩ : Permission)] := by
  have hrun : (Runs.run delegate Demo.denied [Demo.grantRead]).isSome := by decide +kernel
  obtain ⟨d', hd'⟩ := Option.isSome_iff_exists.mp hrun
  refine ⟨d', hd', ?_⟩
  refine (delegation_within_ceiling Demo.denied_integrity).2 _ [Demo.grantRead] d'
    ⟨Demo.grantRead_safe, fun _ _ => trivial⟩
    hd' fun l hl p hp => ?_
  rw [List.mem_singleton.mp hl] at hp
  exact Demo.allows_manager p hp

/-- The manager sets the overrides of the editor to none, and the editor may edit pages again. -/
theorem dropped_deny_escalates : ∃ actor d', Demo.denied.actor .session "manager" = some actor ∧
    Demo.denied.perform actor.id (.setUserPermissions "editor" []) = .ok d' ∧
      ¬∀ way userId p, Demo.denied.allows way userId p = false → d'.allows way userId p = true →
        Demo.denied.isAllowed actor p = true := by
  have hrun : (Demo.denied.actor .session "manager").any fun actor =>
      match Demo.denied.perform actor.id (.setUserPermissions "editor" []) with
      | .ok d' => !Demo.denied.allows .session "editor" ⟨.pages, .update⟩ &&
          d'.allows .session "editor" ⟨.pages, .update⟩ && !Demo.denied.isAllowed actor ⟨.pages, .update⟩
      | .error _ => false := by
    decide +kernel
  obtain ⟨actor, hactor, h⟩ := (Option.any_eq_true _ _).mp hrun
  split at h
  · next d' hperform =>
    obtain ⟨h, hrefused⟩ := Bool.and_eq_true_iff.mp h
    obtain ⟨hbefore, hafter⟩ := Bool.and_eq_true_iff.mp h
    refine ⟨actor, d', hactor, hperform, fun hown => ?_⟩
    have hallowed := hown .session "editor" ⟨.pages, .update⟩ (by simpa using hbefore) hafter
    rw [hallowed] at hrefused
    cases hrefused
  · cases h

end AdWiki.Access
