import AdWiki.Access.Authority

/-!
# Delegating permissions

The four calls by which one user changes what others may do: `AclsService.setRoleAcls` and `setUserPermissions`,
`UsersService.assignRole` and `create`. Each compares what it hands out with the ceiling of the caller
(`assertMayGrantEntries`, `assertMayAssignRole`). `perform` runs one of them for a caller.
-/

namespace AdWiki.Access

structure CreateUserInput where
  email : String
  username : String
  displayName : String
  roleId : String
  password : String
  deriving DecidableEq

/-- `dedupe`: the last entry for each pair of the catalog. -/
def dedupe (entries : List AclEntry) : List AclEntry :=
  (OrderedMap.empty.setAll
    ((entries.filter fun e => isPermissionSupported e.permission).map fun e => (e.permission.key, e))).values

namespace Directory

variable (d : Directory)

def assertMayGrantEntries (actorId : String) (entries : List AclEntry) : Except HttpError Unit := do
  let actorPermissions ← d.effectivePermissionKeys actorId
  Fallible.throwIf (entries.any fun e => e.allowed && !actorPermissions.contains e.permission.key)
    (.forbidden "Du kannst nur Berechtigungen vergeben, die du selbst besitzt.")

def assertMayAssignRole (actorId roleId : String) : Except HttpError Unit :=
  match d.roles.find roleId with
  | none => .error (.forbidden "Die zugewiesene Rolle wurde nicht gefunden.")
  | some role => d.assertMayGrantEntries actorId (d.aclEntries role.id)

/-- A statement that the unique index may refuse. -/
def accepted {α : Type} (result : Option α) : Except HttpError α :=
  match result with
  | none => .error .uniqueConstraint
  | some a => .ok a

/-- `AclsService.setRoleAcls`, with the entries that it returns. -/
def setRoleAcls (roleId : String) (entries : List AclEntry) (actorId : String) :
    Except HttpError (Directory × List AclEntry) :=
  match d.roles.find roleId with
  | none => .error (.notFound "Rolle nicht gefunden.")
  | some _ => do
    d.assertMayGrantEntries actorId entries
    let acls ← accepted <| (d.acls.deleteMany fun row => row.roleId == roleId).createMany <|
      (dedupe entries).map fun e => ⟨roleId, e.permission.resource.text, e.permission.action.text, e.allowed⟩
    let d' := { d with acls := acls }
    pure (d', d'.aclEntries roleId)

def ensureUserIsManageable (userId : String) : Except HttpError Unit :=
  match d.users.find userId with
  | none => .error (.notFound "Benutzer nicht gefunden.")
  | some user =>
    Fallible.throwIf user.isProtected
      (.forbidden "Die Rechte des geschützten Setup-Admin-Kontos können nicht geändert werden.")

/-- `AclsService.setUserPermissions`, with the entries that it returns. -/
def setUserPermissions (userId : String) (entries : List AclEntry) (actorId : String) :
    Except HttpError (Directory × List AclEntry) := do
  Fallible.throwIf (userId = actorId) (.forbidden "Du kannst deine eigenen individuellen Rechte nicht ändern.")
  d.ensureUserIsManageable userId
  d.assertMayGrantEntries actorId entries
  let permissions ← accepted <| (d.permissions.deleteMany fun row => row.userId == userId).createMany <|
    (dedupe entries).map fun e => ⟨userId, e.permission.resource.text, e.permission.action.text, e.allowed⟩
  let d' := { d with permissions := permissions }
  pure (d', d'.userEntries userId)

/-- The check of `UsersService` before it changes a user. -/
def ensureManageable (id : String) : Except HttpError Unit :=
  match d.users.find id with
  | none => .error (.notFound "Benutzer nicht gefunden.")
  | some user =>
    Fallible.throwIf user.isProtected
      (.forbidden "Das geschützte Setup-Admin-Konto kann nicht administrativ geändert werden.")

/-- `UsersService.assignRole`. -/
def assignRole (id roleId actorId : String) : Except HttpError Directory := do
  d.ensureManageable id
  match d.roles.find roleId with
  | none => .error (.badRequest "Die ausgewählte Rolle existiert nicht.")
  | some role =>
    d.assertMayAssignRole actorId role.id
    pure { d with users := d.users.updateMany (fun row => row.id == id) (fun row => { row with roleId := role.id })
                    fun _ => rfl }

/-- `UsersService.create`; the new id and the hash of the password come from outside. -/
def create (input : CreateUserInput) (id passwordHash actorId : String) : Except HttpError Directory := do
  match d.users.rows.find? fun row => row.email == input.email || row.username == input.username with
  | some existing =>
    .error (.conflict (if existing.email = input.email then "E-Mail ist bereits vergeben."
      else "Benutzername ist bereits vergeben."))
  | none =>
    match d.roles.find input.roleId with
    | none => .error (.badRequest "Die ausgewählte Rolle existiert nicht.")
    | some role =>
      d.assertMayAssignRole actorId role.id
      let users ← accepted <| d.users.createMany
        [⟨id, input.email, input.username, input.displayName, passwordHash, role.id, true, false, true⟩]
      pure { d with users := users }

end Directory

inductive Call
  | setRoleAcls (roleId : String) (entries : List AclEntry)
  | setUserPermissions (userId : String) (entries : List AclEntry)
  | assignRole (userId roleId : String)
  | create (input : CreateUserInput) (newId passwordHash : String)

/-- The tables after a call of the user `actorId`. -/
def Directory.perform (d : Directory) (actorId : String) : Call → Except HttpError Directory
  | .setRoleAcls roleId entries => (d.setRoleAcls roleId entries actorId).map Prod.fst
  | .setUserPermissions userId entries => (d.setUserPermissions userId entries actorId).map Prod.fst
  | .assignRole userId roleId => d.assignRole userId roleId actorId
  | .create input newId passwordHash => d.create input newId passwordHash actorId

/-! ## The entries of a request -/

/-- What a request says about a pair: the last entry for it, if the catalog has the pair. -/
def requested (entries : List AclEntry) (p : Permission) : Option Bool :=
  ((entries.filter fun e => isPermissionSupported e.permission).reverse.find? fun e => e.permission == p).map
    AclEntry.allowed

variable {d d' : Directory} {entries : List AclEntry} {e : AclEntry} {p : Permission} {roleId userId actorId : String}

/-- The map that `dedupe` reads its entries from. -/
def latest (entries : List AclEntry) : OrderedMap String AclEntry :=
  OrderedMap.empty.setAll
    ((entries.filter fun e => isPermissionSupported e.permission).map fun e => (e.permission.key, e))

theorem lookup_keyed (l : List AclEntry) :
    (l.map fun e => (e.permission.key, e)).lookup p.key = l.find? fun e => e.permission == p := by
  induction l with
  | nil => rfl
  | cons e l ih =>
    rw [List.map_cons, OrderedMap.lookup_cons_if, List.find?_cons, ih]
    by_cases h : e.permission = p
    · rw [if_pos (by rw [h]), beq_iff_eq.mpr h]
    · rw [if_neg fun hkey => h (key_inj.mp hkey).symm, beq_eq_false_iff_ne.mpr h]

theorem get?_latest : (latest entries).get? p.key =
    (entries.filter fun e => isPermissionSupported e.permission).reverse.find? fun e => e.permission == p := by
  rw [latest, OrderedMap.get?_setAll, OrderedMap.get?_empty, Option.or_none, ← List.map_reverse, lookup_keyed]

theorem latest_key {key : String} (h : (latest entries).get? key = some e) :
    key = e.permission.key ∧ isPermissionSupported e.permission = true := by
  rw [latest, OrderedMap.get?_setAll, OrderedMap.get?_empty, Option.or_none] at h
  obtain ⟨l₁, l₂, hsplit, -⟩ := List.lookup_eq_some_iff.mp h
  have hmem : (key, e) ∈ ((entries.filter fun e => isPermissionSupported e.permission).map fun e =>
      (e.permission.key, e)).reverse := by
    rw [hsplit]
    simp
  obtain ⟨e', he', heq⟩ := List.mem_map.mp (List.mem_reverse.mp hmem)
  cases heq
  exact ⟨rfl, (List.mem_filter.mp he').2⟩

/-- `dedupe` keeps, for each pair, what the request says last. -/
theorem mem_dedupe : e ∈ dedupe entries ↔ (latest entries).get? e.permission.key = some e := by
  show e ∈ (latest entries).values ↔ _
  rw [OrderedMap.mem_values]
  constructor
  · rintro ⟨key, h⟩
    rw [← (latest_key h).1]
    exact h
  · intro h
    exact ⟨_, h⟩

theorem requested_eq_some {allowed : Bool} : requested entries p = some allowed ↔ ⟨p, allowed⟩ ∈ dedupe entries := by
  rw [mem_dedupe, get?_latest, requested, Option.map_eq_some_iff]
  constructor
  · rintro ⟨e, he, rfl⟩
    have hp : e.permission = p := by simpa using List.find?_some he
    rw [he, ← hp]
  · intro h
    exact ⟨_, h, rfl⟩

/-- The pairs that `dedupe` keeps are different. -/
theorem nodup_dedupe (entries : List AclEntry) : ((dedupe entries).map AclEntry.permission).Nodup := by
  have hkeys : (dedupe entries).map (fun e => e.permission.key) = (latest entries).entries.map Prod.fst := by
    show ((latest entries).entries.map Prod.snd).map (fun e => e.permission.key) = _
    rw [List.map_map]
    refine List.map_congr_left fun x hx => ?_
    exact (latest_key (OrderedMap.get?_eq_some.mpr hx)).1.symm
  have hnodup : ((dedupe entries).map fun e => e.permission.key).Nodup := hkeys ▸ (latest entries).nodup
  rw [List.Nodup, List.pairwise_map] at hnodup ⊢
  exact hnodup.imp fun hne hsame => hne (by rw [hsame])

/-- An allowing entry of a request is an entry of the request. -/
theorem mem_of_requested {allowed : Bool} (h : requested entries p = some allowed) :
    ⟨p, allowed⟩ ∈ entries ∧ isPermissionSupported p = true := by
  obtain ⟨e, he, rfl⟩ := Option.map_eq_some_iff.mp h
  have hp : e.permission = p := by simpa using List.find?_some he
  obtain ⟨hmem, hsupported⟩ := List.mem_filter.mp (List.mem_reverse.mp (List.mem_of_find?_eq_some he))
  subst hp
  exact ⟨hmem, hsupported⟩

end AdWiki.Access
