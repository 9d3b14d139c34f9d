import AdWiki.Sso.RoleGrants

/-!
# The switch for administrator roles

A provider with `allowAdminRoleMapping` off grants no privileged role: a synchronisation that would grant one is
refused. The refusal is an error like any other one, which leaves the grants as they are.

* `adminMapping_of_run`: after a synchronisation that succeeds the switch is in effect, one that fails leaves the grant.
* `adminMapping_kept`: a grant of the time before the switch, kept by the refusal.
-/

namespace AdWiki.Sso

/-- The identity holds a grant of a privileged role, and its provider does not allow one. -/
def forbiddenGrant (db : Db) (id : String) : Bool :=
  (db.identities.find id).any fun row =>
    ((db.providers.find row.providerId).any fun provider => !provider.allowAdminRoleMapping) &&
      (db.roleGrants.find id).any fun grant => (db.roles.find grant.roleId).any isPrivilegedRole

variable {env : Env} {db db' : Db} {identity : SyncIdentity} {claims : NormalizedClaims} {preview : IdentitySyncPreview}
  {id : String} {source : ClaimSource} {c : Choice}

theorem Unsynced.forbiddenGrant (h : Unsynced db db') (id : String) : forbiddenGrant db' id = forbiddenGrant db id := by
  have hrow := h.identities id
  unfold Sso.forbiddenGrant
  rw [h.mappings.providers, h.mappings.roles, h.grants.roleGrants]
  cases hnew : db'.identities.find id with
  | none =>
    rw [hnew, Option.map_none, eq_comm, Option.map_eq_none_iff] at hrow
    rw [hrow]
  | some row =>
    rw [hnew, Option.map_some] at hrow
    obtain ⟨old, hold, heq⟩ := Option.map_eq_some_iff.mp hrow.symm
    rw [hold, Option.any_some, Option.any_some, (Prod.mk.inj heq).1]

/-- The transaction has checked the role that it grants. -/
theorem forbiddenGrant_transaction (hs : RoleTables db) (hload : db.findIdentity id = some identity)
    (h : transaction env db id claims c = .ok (db', preview)) : forbiddenGrant db' id = false := by
  obtain ⟨next, hnext, hgrant⟩ := transaction_roleGrant hs hload h
  have hsame := transaction_same h
  obtain ⟨hrow, hprovider⟩ := findIdentity_eq_some hload
  have hnew := transaction_identities h id
  rw [hrow, Option.map_some] at hnew
  obtain ⟨row, hrow', heq⟩ := Option.map_eq_some_iff.mp hnew
  unfold forbiddenGrant
  rw [hrow', Option.any_some, (Prod.mk.inj heq).1, hsame.providers, hprovider, hsame.roles, hgrant, Option.any_some]
  cases hn : next with
  | none => rw [Option.map_none, Option.any_none, Bool.and_false]
  | some mapped =>
    rw [hn] at hnext
    obtain ⟨hmem, hallowed, -⟩ := nextMatch_some hnext
    obtain ⟨hmapping, hmapped⟩ := mem_roleMappings hload hmem
    obtain ⟨role, hrole⟩ := Option.isSome_iff_exists.mp (hs.mapping _ (Table.find_eq_some.mp hmapping).1).1
    have hrole' : mapped.role = role := by
      rw [hmapped, Db.mappedRole, hrole, Option.getD_some]
    rw [Option.map_some, Option.any_some, hrole, Option.any_some]
    cases hoff : identity.provider.allowAdminRoleMapping with
    | true => rfl
    | false => rw [← hrole', hallowed hoff, Bool.and_false]

/-- **After a synchronisation that succeeds, an identity whose provider has the switch off holds no privileged role; one
that fails leaves every role grant as it was.** -/
theorem adminMapping_of_run {calls : List RoleCall} (hs : RoleTables db)
    (hrun : Runs.run (performRole env) db calls = some db') (id : String) (source : ClaimSource) (c : Choice) :
    match sync env db' id c source with
    | (after, .ok _) => forbiddenGrant after id = false
    | (after, .error _) => after.roleGrants = db'.roleGrants ∧ forbiddenGrant after id = forbiddenGrant db' id := by
  have hs' : RoleTables db' := Runs.inv_run (fun _ _ _ => performRole_roleTables) hs hrun
  have hout := syncOutcome_sync env db' id source c
  generalize sync env db' id c source = out at hout ⊢
  cases hout with
  | missing _ => exact ⟨rfl, rfl⟩
  | @claims _ code _ _ =>
    have hsame := unsynced_recordFailure db' id (.sync code)
    exact ⟨hsame.grants.roleGrants, hsame.forbiddenGrant id⟩
  | @failed _ _ error _ _ _ =>
    have hsame := unsynced_recordFailure db' id error
    exact ⟨hsame.grants.roleGrants, hsame.forbiddenGrant id⟩
  | written hload _ hwritten => exact forbiddenGrant_transaction hs' hload hwritten

/-! ## A grant of the time before -/

namespace RoleDemo

/-- `allowAdminRoleMapping` off. -/
def switchOff : RoleCall := .updateProvider "intranet" ⟨none, none, false, none, none, none, some false⟩ true

def editors : RoleCall := .createRoleMapping "intranet" ⟨.role, "edit", "editor", 2⟩ "other"

/-- The synchronisation is refused, and the identity holds the forbidden grant. -/
def refusedAndHeld (db : Db) (id : String) (source : ClaimSource) (c : Choice) : Bool :=
  let (db', result) := sync locale db id c source
  result = .error (.sync .adminRoleMappingDisabled) && forbiddenGrant db' id

end RoleDemo

/-- The switch takes effect where the claims now name another role. -/
theorem adminMapping_of_run_editor : ∃ db', Runs.run (performRole RoleDemo.locale) RoleDemo.tables
      [RoleDemo.mapOperator, RoleDemo.editors, RoleDemo.login, RoleDemo.switchOff] = some db' ∧
    forbiddenGrant db' "identity" = true ∧
    match sync RoleDemo.locale db' "identity" ⟨false, fun _ => "", 2⟩ (.received [("roles", .arr [.str "edit"])]) with
    | (after, .ok _) => forbiddenGrant after "identity" = false
    | (after, .error _) =>
      after.roleGrants = db'.roleGrants ∧ forbiddenGrant after "identity" = forbiddenGrant db' "identity" := by
  have hrun : (Runs.run (performRole RoleDemo.locale) RoleDemo.tables
      [RoleDemo.mapOperator, RoleDemo.editors, RoleDemo.login, RoleDemo.switchOff]).any
        fun db' => forbiddenGrant db' "identity" := by decide +kernel
  obtain ⟨db', hrun, hheld⟩ := (Option.any_eq_true _ _).mp hrun
  exact ⟨db', hrun, hheld, adminMapping_of_run (roleTables_empty rfl rfl) hrun _ _ _⟩

/-- The role is granted, the switch is turned off, and the synchronisation that is refused leaves the grant. -/
theorem adminMapping_kept : ∃ db', Runs.run (performRole RoleDemo.locale) RoleDemo.tables
      [RoleDemo.mapOperator, RoleDemo.login, RoleDemo.switchOff] = some db' ∧
    (sync RoleDemo.locale db' "identity" ⟨false, fun _ => "", 2⟩ .stored).2 = .error (.sync .adminRoleMappingDisabled) ∧
    forbiddenGrant (sync RoleDemo.locale db' "identity" ⟨false, fun _ => "", 2⟩ .stored).1 "identity" = true := by
  have hrun : (Runs.run (performRole RoleDemo.locale) RoleDemo.tables
      [RoleDemo.mapOperator, RoleDemo.login, RoleDemo.switchOff]).any
        fun db' => RoleDemo.refusedAndHeld db' "identity" .stored ⟨false, fun _ => "", 2⟩ := by decide +kernel
  obtain ⟨db', hrun, hheld⟩ := (Option.any_eq_true _ _).mp hrun
  obtain ⟨hrefused, hforbidden⟩ := Bool.and_eq_true_iff.mp hheld
  exact ⟨db', hrun, of_decide_eq_true hrefused, hforbidden⟩

end AdWiki.Sso
