import AdWiki.Lib.Separators

/-!
# The permission catalog

The axes of the permission matrix and the pairs of them that exist. The tables store both axes as text, so a stored
entry is parsed (`parseAclEntry`) and dropped where it is not a pair of the catalog. The services identify a pair by
its text `resource:action`; no two pairs have the same one (`key_inj`).
-/

namespace AdWiki.Access

inductive Resource
  | pages
  | categories
  | media
  | notes
  | standards
  | users
  | settings
  | roles
  | userPermissions
  | auditLogs
  | apiKeys
  | smtp
  | systemInfo
  | exports
  | mcp
  | integrations
  | backups
  | groups
  | spaces
  | resourceAcls
  | identityProviders
  | identityMappings
  | identitySync
  deriving DecidableEq, Repr

inductive Action
  | create
  | read
  | update
  | delete
  | share
  | approve
  | run
  | restore
  | assignRole
  | resetPassword
  | purge
  | test
  | manageMembers
  deriving DecidableEq, Repr

def resources : List Resource :=
  [.pages, .categories, .media, .notes, .standards, .users, .settings, .roles, .userPermissions, .auditLogs, .apiKeys,
    .smtp, .systemInfo, .exports, .mcp, .integrations, .backups, .groups, .spaces, .resourceAcls, .identityProviders,
    .identityMappings, .identitySync]

def actions : List Action :=
  [.create, .read, .update, .delete, .share, .approve, .run, .restore, .assignRole, .resetPassword, .purge, .test,
    .manageMembers]

def Resource.text : Resource → String
  | .pages => "pages"
  | .categories => "categories"
  | .media => "media"
  | .notes => "notes"
  | .standards => "standards"
  | .users => "users"
  | .settings => "settings"
  | .roles => "roles"
  | .userPermissions => "user_permissions"
  | .auditLogs => "audit_logs"
  | .apiKeys => "api_keys"
  | .smtp => "smtp"
  | .systemInfo => "system_info"
  | .exports => "exports"
  | .mcp => "mcp"
  | .integrations => "integrations"
  | .backups => "backups"
  | .groups => "groups"
  | .spaces => "spaces"
  | .resourceAcls => "resource_acls"
  | .identityProviders => "identity_providers"
  | .identityMappings => "identity_mappings"
  | .identitySync => "identity_sync"

def Action.text : Action → String
  | .create => "create"
  | .read => "read"
  | .update => "update"
  | .delete => "delete"
  | .share => "share"
  | .approve => "approve"
  | .run => "run"
  | .restore => "restore"
  | .assignRole => "assign_role"
  | .resetPassword => "reset_password"
  | .purge => "purge"
  | .test => "test"
  | .manageMembers => "manage_members"

def permissionCatalog : Resource → List Action
  | .pages => [.create, .read, .update, .delete, .purge]
  | .categories => [.create, .read, .update, .delete]
  | .media => [.create, .read, .update, .delete]
  | .notes => [.create, .read, .update, .delete, .share]
  | .standards => [.create, .read, .update, .delete, .approve]
  | .users => [.create, .read, .update, .delete, .assignRole, .resetPassword]
  | .settings => [.read, .update]
  | .roles => [.create, .read, .update, .delete]
  | .userPermissions => [.read, .update]
  | .auditLogs => [.read]
  | .apiKeys => [.read]
  | .smtp => [.read, .update, .test]
  | .systemInfo => [.read]
  | .exports => [.run]
  | .mcp => [.create, .read, .delete]
  | .integrations => [.create, .read, .update, .delete]
  | .backups => [.create, .read, .update, .delete, .run, .restore]
  | .groups => [.create, .read, .update, .delete, .manageMembers]
  | .spaces => [.create, .read, .update, .delete]
  | .resourceAcls => [.read, .update]
  | .identityProviders => [.read, .update]
  | .identityMappings => [.read, .update]
  | .identitySync => [.read, .update]

/-- A pair of the matrix. -/
structure Permission where
  resource : Resource
  action : Action
  deriving DecidableEq, Repr

def isPermissionSupported (p : Permission) : Bool := (permissionCatalog p.resource).contains p.action

/-- The pairs of the catalog, in its order. -/
def supportedPermissions : List Permission := resources.flatMap fun r => (permissionCatalog r).map fun a => ⟨r, a⟩

/-- `resource:action`. -/
def Permission.key (p : Permission) : String := p.resource.text ++ ":" ++ p.action.text

/-- An entry of a role or of a user. -/
structure AclEntry where
  permission : Permission
  allowed : Bool
  deriving DecidableEq, Repr

def parseResource (s : String) : Option Resource := resources.find? fun r => r.text == s

def parseAction (s : String) : Option Action := actions.find? fun a => a.text == s

/-- `AclEntrySchema.safeParse` on the columns of a row. -/
def parseAclEntry (resource action : String) (allowed : Bool) : Option AclEntry :=
  match parseResource resource, parseAction action with
  | some r, some a => if isPermissionSupported ⟨r, a⟩ then some ⟨⟨r, a⟩, allowed⟩ else none
  | _, _ => none

variable {r r' : Resource} {a a' : Action} {p p' : Permission} {s t : String} {allowed : Bool} {e : AclEntry}

theorem mem_resources (r : Resource) : r ∈ resources := by
  cases r <;> decide

theorem mem_actions (a : Action) : a ∈ actions := by
  cases a <;> decide

@[simp] theorem parseResource_text (r : Resource) : parseResource r.text = some r := by
  cases r <;> rfl

@[simp] theorem parseAction_text (a : Action) : parseAction a.text = some a := by
  cases a <;> rfl

theorem parseResource_eq_some : parseResource s = some r ↔ r.text = s := by
  constructor
  · intro h
    simpa using List.find?_some h
  · rintro rfl
    exact parseResource_text r

theorem parseAction_eq_some : parseAction s = some a ↔ a.text = s := by
  constructor
  · intro h
    simpa using List.find?_some h
  · rintro rfl
    exact parseAction_text a

theorem Resource.text_inj : r.text = r'.text ↔ r = r' := by
  constructor
  · intro h
    have hr := parseResource_text r
    rw [h, parseResource_text] at hr
    exact (Option.some.inj hr).symm
  · rintro rfl
    rfl

theorem Action.text_inj : a.text = a'.text ↔ a = a' := by
  constructor
  · intro h
    have ha := parseAction_text a
    rw [h, parseAction_text] at ha
    exact (Option.some.inj ha).symm
  · rintro rfl
    rfl

/-- What a row is read as: its own pair, where the catalog has it. -/
theorem parseAclEntry_eq_some : parseAclEntry s t allowed = some e ↔
    e.permission.resource.text = s ∧ e.permission.action.text = t ∧ isPermissionSupported e.permission = true ∧
      e.allowed = allowed := by
  unfold parseAclEntry
  constructor
  · intro h
    split at h
    · next r a hr ha =>
      split at h
      · next hsupported =>
        cases h
        exact ⟨parseResource_eq_some.mp hr, parseAction_eq_some.mp ha, hsupported, rfl⟩
      · cases h
    · cases h
  · rintro ⟨rfl, rfl, hsupported, rfl⟩
    rw [parseResource_text, parseAction_text]
    exact if_pos hsupported

/-! ## Keys -/

theorem colon_notMem_resource (r : Resource) : ':' ∉ r.text.toList := by
  cases r <;> decide

/-- A pair is determined by its text. -/
theorem key_inj : p.key = p'.key ↔ p = p' := by
  constructor
  · intro h
    have hlist : p.resource.text.toList ++ ':' :: p.action.text.toList =
        p'.resource.text.toList ++ ':' :: p'.action.text.toList := by
      simpa [Permission.key] using congrArg String.toList h
    obtain ⟨hr, ha⟩ := Separators.append_inj_first (colon_notMem_resource _) (colon_notMem_resource _) hlist
    have hresource : p.resource = p'.resource := Resource.text_inj.mp (String.toList_inj.mp hr)
    have haction : p.action = p'.action := Action.text_inj.mp (String.toList_inj.mp ha)
    cases p
    cases p'
    simp_all
  · rintro rfl
    rfl

end AdWiki.Access
