import AdWiki.Access.Catalog
import AdWiki.Lib.Ranked
import AdWiki.Lib.Table
import AdWiki.Sso.Tables

/-!
# Users, roles and external role grants

The tables that say what a user may do, and `EffectiveRoleService.withEffectiveRole`, which replaces the local role of
a user by the role of an external grant. The rank of a grant is the priority of the mapping it came by; `effectiveRole`
is the role of the grant that alone has the least priority number (`InForce`), and the local role if there is none
(`effectiveRole_of_inForce`, `effectiveRole_of_none`).
-/

namespace AdWiki.Access

open Sso (ExternalRoleGrant)

structure Role where
  id : String
  name : String
  deriving DecidableEq, Repr

structure User where
  id : String
  email : String
  username : String
  displayName : String
  password : String
  roleId : String
  isActive : Bool
  isProtected : Bool
  hasLocalPassword : Bool
  deriving DecidableEq, Repr

structure Acl where
  roleId : String
  resource : String
  action : String
  allowed : Bool
  deriving DecidableEq, Repr

/-- `@@unique([roleId, resource, action])`. -/
def Acl.key (row : Acl) : String × String × String := (row.roleId, row.resource, row.action)

structure UserPermission where
  userId : String
  resource : String
  action : String
  allowed : Bool
  deriving DecidableEq, Repr

/-- `@@unique([userId, resource, action])`. -/
def UserPermission.key (row : UserPermission) : String × String × String := (row.userId, row.resource, row.action)

structure IdentityProvider where
  id : String
  displayOrder : Int
  deriving DecidableEq, Repr

structure IdentityProviderRoleMapping where
  id : String
  priority : Int
  providerId : String
  deriving DecidableEq, Repr

structure ExternalIdentity where
  id : String
  userId : String
  deriving DecidableEq, Repr

structure Directory where
  roles : Table Role.id
  users : Table User.id
  acls : Table Acl.key
  permissions : Table UserPermission.key
  providers : Table IdentityProvider.id
  roleMappings : Table IdentityProviderRoleMapping.id
  externalIdentities : Table ExternalIdentity.id
  externalRoleGrants : Table ExternalRoleGrant.externalIdentityId

/-- A user with the relation `role`, which is required. -/
def Directory.findUser (d : Directory) (id : String) : Option (User × Role) := do
  let user ← d.users.find id
  let role ← d.roles.find user.roleId
  pure (user, role)

/-! ## The effective role -/

/-- A grant with the relations that `effectiveRoleUserSelect` loads. -/
structure LoadedGrant where
  role : Role
  roleMapping : IdentityProviderRoleMapping
  provider : IdentityProvider
  deriving DecidableEq, Repr

def Directory.loadGrant (d : Directory) (identity : ExternalIdentity) : Option LoadedGrant := do
  let grant ← d.externalRoleGrants.find identity.id
  let role ← d.roles.find grant.roleId
  let roleMapping ← d.roleMappings.find grant.roleMappingId
  let provider ← d.providers.find roleMapping.providerId
  pure ⟨role, roleMapping, provider⟩

/-- The external role grants of a user, one for each identity that has one. -/
def Directory.externalRoleGrantsOf (d : Directory) (userId : String) : List LoadedGrant :=
  (d.externalIdentities.rows.filter fun identity => identity.userId == userId).filterMap d.loadGrant

/-- The order of the sort; on ids, `localeCompare` is the order of the code points. -/
def LoadedGrant.compare (left right : LoadedGrant) : Ordering :=
  (Ord.compare left.roleMapping.priority right.roleMapping.priority).then <|
    (Ord.compare left.provider.displayOrder right.provider.displayOrder).then <|
      (Ord.compare left.roleMapping.providerId right.roleMapping.providerId).then <|
        Ord.compare left.roleMapping.id right.roleMapping.id

/-- `withEffectiveRole`: the role of the first grant, unless another grant has the same priority. -/
def effectiveRole (localRole : Role) (grants : List LoadedGrant) : Role :=
  match grants.insertionSort fun left right => (left.compare right).isLE with
  | [] => localRole
  | first :: rest =>
    let conflictingTopPriority := rest.any fun grant => grant.roleMapping.priority == first.roleMapping.priority
    if conflictingTopPriority then localRole else first.role

/-- The grant has the least priority number, and no other grant has it. -/
structure InForce (grants : List LoadedGrant) (g : LoadedGrant) : Prop where
  mem : g ∈ grants
  least : ∀ h ∈ grants, g.roleMapping.priority ≤ h.roleMapping.priority
  alone : grants.countP (fun h => h.roleMapping.priority == g.roleMapping.priority) = 1

variable {localRole : Role} {grants : List LoadedGrant} {g h : LoadedGrant}

theorem LoadedGrant.priority_le_of_isLE (hle : (g.compare h).isLE) : g.roleMapping.priority ≤ h.roleMapping.priority := by
  unfold LoadedGrant.compare at hle
  rcases lt_trichotomy g.roleMapping.priority h.roleMapping.priority with hlt | heq | hgt
  · exact hlt.le
  · exact heq.le
  · rw [compare_gt_iff_gt.mpr hgt] at hle
    cases hle

theorem LoadedGrant.priority_le_of_not_isLE (hle : ¬(g.compare h).isLE) :
    h.roleMapping.priority ≤ g.roleMapping.priority := by
  unfold LoadedGrant.compare at hle
  rcases lt_trichotomy g.roleMapping.priority h.roleMapping.priority with hlt | heq | hgt
  · rw [compare_lt_iff_lt.mpr hlt] at hle
    exact absurd rfl hle
  · exact heq.ge
  · exact hgt.le

/-- Two grants of the least priority are the same grant. -/
theorem InForce.unique (hg : InForce grants g) (hh : InForce grants h) : g = h := by
  have hpriority : g.roleMapping.priority = h.roleMapping.priority := le_antisymm (hg.least h hh.mem) (hh.least g hg.mem)
  have hone := hg.alone
  rw [List.countP_eq_length_filter, List.length_eq_one_iff] at hone
  obtain ⟨x, hx⟩ := hone
  have hgx : g ∈ [x] := hx ▸ List.mem_filter.mpr ⟨hg.mem, by simp⟩
  have hhx : h ∈ [x] := hx ▸ List.mem_filter.mpr ⟨hh.mem, by simp [hpriority]⟩
  rw [List.mem_singleton.mp hgx, List.mem_singleton.mp hhx]

/-- What `withEffectiveRole` finds: a grant in force and its role, or no grant in force and the local role. -/
theorem effectiveRole_cases (localRole : Role) (grants : List LoadedGrant) :
    (∃ g, InForce grants g ∧ effectiveRole localRole grants = g.role) ∨
      ((∀ g, ¬InForce grants g) ∧ effectiveRole localRole grants = localRole) := by
  unfold effectiveRole
  have hperm := List.perm_insertionSort (fun left right : LoadedGrant => (left.compare right).isLE) grants
  split
  · next hsorted =>
    rw [hsorted] at hperm
    refine Or.inr ⟨fun g hg => ?_, rfl⟩
    rw [List.nil_perm.mp hperm] at hg
    exact absurd hg.mem List.not_mem_nil
  · next first rest hsorted =>
    have hleast : ∀ g ∈ grants, first.roleMapping.priority ≤ g.roleMapping.priority :=
      Ranked.head_le (f := fun g : LoadedGrant => g.roleMapping.priority)
        (fun _ _ => LoadedGrant.priority_le_of_isLE) (fun _ _ => LoadedGrant.priority_le_of_not_isLE) hsorted
    rw [hsorted] at hperm
    have hmem : first ∈ grants := hperm.mem_iff.mp List.mem_cons_self
    have hcount : grants.countP (fun g => g.roleMapping.priority == first.roleMapping.priority) =
        rest.countP (fun g => g.roleMapping.priority == first.roleMapping.priority) + 1 := by
      rw [← hperm.countP_eq, List.countP_cons_of_pos (by simp)]
    simp only
    split
    · next hconflict =>
      refine Or.inr ⟨fun g hg => ?_, rfl⟩
      have hpriority : first.roleMapping.priority = g.roleMapping.priority :=
        le_antisymm (hleast g hg.mem) (hg.least first hmem)
      obtain ⟨other, hother, hsame⟩ := List.any_eq_true.mp hconflict
      have hpos : 0 < rest.countP (fun g => g.roleMapping.priority == first.roleMapping.priority) :=
        List.countP_pos_iff.mpr ⟨other, hother, hsame⟩
      have hone := hg.alone
      rw [← hpriority, hcount] at hone
      omega
    · next hfree =>
      refine Or.inl ⟨first, ⟨hmem, hleast, ?_⟩, rfl⟩
      rw [hcount, List.countP_eq_zero.mpr fun other hother hsame => hfree (List.any_eq_true.mpr ⟨other, hother, hsame⟩)]

theorem effectiveRole_of_inForce (hg : InForce grants g) : effectiveRole localRole grants = g.role := by
  rcases effectiveRole_cases localRole grants with ⟨g', hg', h⟩ | ⟨hnone, -⟩
  · rw [h, hg.unique hg']
  · exact absurd hg (hnone g)

theorem effectiveRole_of_none (hnone : ∀ g, ¬InForce grants g) : effectiveRole localRole grants = localRole := by
  rcases effectiveRole_cases localRole grants with ⟨g, hg, -⟩ | ⟨-, h⟩
  · exact absurd hg (hnone g)
  · exact h

end AdWiki.Access
