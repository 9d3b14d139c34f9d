import AdWiki.Auth.Revocation

/-!
# The provider behind a session

A session that descends from an external login is bound to the identity it logged in with, and the binding is copied
by every rotation. Unlinking an identity revokes its sessions first; deleting a provider removes its identities by a
foreign-key action that only clears the binding, after which `refreshToken` no longer looks at a provider.

* `Bound`: the binding of every session that is not revoked, kept by the runs whose provider deletions find no such
  session (`removalClean`).
* `sso_session_checked`: in these runs a refresh succeeds only with an active provider, before the recheck time.
* `sso_session_outlives_provider`: without the condition it does not.
-/

namespace AdWiki.Auth

variable {env : Env} {st st' : Store} {i : Nat} {p q : Point} {c : Choice}

/-! ## Identities on record -/

/-- The identity `id` was linked with the provider `providerId`. -/
def LinkedWith (log : List Event) (id providerId : String) : Prop :=
  ∃ identity, .linked identity ∈ log ∧ identity.id = id ∧ identity.providerId = providerId

structure Identities (st : Store) : Prop where
  ids : (st.log.filterMap Event.identityId).Nodup
  rows : ∀ identity ∈ st.identities, .linked identity ∈ st.log
  codes : ∀ code ∈ st.loginCodes, LinkedWith st.log code.externalIdentityId code.providerId

/-- What an external login in progress relies on. -/
def KnownIdentity (log : List Event) : Point → Prop
  | .codeUser record _ _ => LinkedWith log record.externalIdentityId record.providerId
  | .issueTokens _ _ (some (external, providerId)) => LinkedWith log external.externalIdentityId providerId
  | .loginCodeTx identity _ => .linked identity ∈ log
  | _ => True

theorem LinkedWith.mono {log log' : List Event} (hlog : log <:+ log') {id providerId : String}
    (h : LinkedWith log id providerId) : LinkedWith log' id providerId := by
  obtain ⟨identity, hmem, he⟩ := h
  exact ⟨identity, hlog.mem hmem, he⟩

theorem knownIdentity_mono {log log' : List Event} (hlog : log <:+ log') (h : KnownIdentity log p) :
    KnownIdentity log' p := by
  cases p with
  | codeUser record minutes context => exact LinkedWith.mono hlog h
  | issueTokens userId context external =>
    cases external with
    | none => trivial
    | some e => exact LinkedWith.mono hlog h
  | loginCodeTx identity context => exact hlog.mem h
  | _ => trivial

/-- An identity row with an id on record has the provider on record. -/
theorem Identities.providerId_eq (hs : Identities st) {identity : ExternalIdentity} {id providerId : String}
    (hmem : identity ∈ st.identities) (hid : identity.id = id) (h : LinkedWith st.log id providerId) :
    identity.providerId = providerId := by
  obtain ⟨identity', hmem', hid', hprovider⟩ := h
  cases Rows.eq_of_filterMap hs.ids (hs.rows identity hmem) hmem' rfl (congrArg some (hid'.trans hid.symm))
  exact hprovider

theorem Identities.frame (hs : Identities st) (hids : ∀ identity ∈ st'.identities, identity ∈ st.identities)
    (hcodes : ∀ code ∈ st'.loginCodes, ∃ old ∈ st.loginCodes,
      code.externalIdentityId = old.externalIdentityId ∧ code.providerId = old.providerId)
    (hlog : st.log <:+ st'.log) (hlinked : st'.log.filterMap Event.identityId = st.log.filterMap Event.identityId) :
    Identities st' where
  ids := hlinked ▸ hs.ids
  rows identity hmem := hlog.mem (hs.rows identity (hids identity hmem))
  codes code hmem := by
    obtain ⟨old, hold, he, he'⟩ := hcodes code hmem
    rw [he, he']
    exact (hs.codes old hold).mono hlog

theorem identities_exec (h : Exec env st c p st' q) (hs : Identities st) (hk : KnownIdentity st.log p) :
    Identities st' := by
  have hlog := log_suffix h
  have hkeep : ∀ {codes : List OidcLoginCode}, (∀ code ∈ codes, code ∈ st.loginCodes) →
      ∀ code ∈ codes, ∃ old ∈ st.loginCodes,
        code.externalIdentityId = old.externalIdentityId ∧ code.providerId = old.providerId :=
    fun hsub code hcode => ⟨code, hsub code hcode, rfl, rfl⟩
  cases h with
  | wrote hp hcodes => exact hs.frame (fun _ h => h) (hkeep hcodes) hlog rfl
  | codeConsumed hmem =>
    refine hs.frame (fun _ h => h) (fun code hcode => ?_) hlog rfl
    rcases Rows.of_mem_updateMany hcode with ⟨hold, -⟩ | ⟨old, hold, -, rfl⟩
    · exact ⟨code, hold, rfl, rfl⟩
    · exact ⟨old, hold, rfl, rfl⟩
  | codeCreated hidentity hprovider =>
    rename_i identity context code a
    refine ⟨hs.ids, hs.rows, fun row hrow => ?_⟩
    rcases List.mem_append.mp hrow with hrow | hrow
    · exact hs.codes row hrow
    · rw [List.mem_singleton.mp hrow]
      exact ⟨identity, hk, hidentity.symm, hprovider.symm⟩
  | linked hfresh =>
    refine ⟨List.nodup_cons.mpr ⟨hfresh, hs.ids⟩, fun row hrow => ?_, fun code hcode => (hs.codes code hcode).mono hlog⟩
    rcases List.mem_append.mp hrow with hrow | hrow
    · exact List.mem_cons_of_mem _ (hs.rows row hrow)
    · rw [List.mem_singleton.mp hrow]
      exact List.mem_cons_self
  | unlinked hmem =>
    exact hs.frame (fun _ h => (Rows.mem_deleteMany.mp h).1) (hkeep fun _ h => (Rows.mem_deleteMany.mp h).1) hlog rfl
  | providerRemoved =>
    exact hs.frame (fun _ h => (Rows.mem_deleteMany.mp h).1) (hkeep fun _ h => (Rows.mem_deleteMany.mp h).1) hlog rfl
  | _ => exact hs.frame (fun _ h => h) (hkeep fun _ h => h) hlog rfl

theorem knownIdentity_exec (h : Exec env st c p st' q) (hs : Identities st) (hk : KnownIdentity st.log p) :
    KnownIdentity st'.log q := by
  cases h with
  | codeConsumed hmem => exact hs.codes _ hmem
  | codeUser hid =>
    obtain ⟨identity, hmem, he, hprovider⟩ := hk
    exact ⟨identity, hmem, he.trans hid.symm, hprovider⟩
  | codeFound hmem => exact hs.rows _ hmem
  | moved hq => cases q <;> trivial
  | _ => trivial

/-! ## Sessions and their identities -/

/-- A session that is not revoked and descends from a login through a provider is bound to an identity of the
provider. -/
def Bound (st : Store) : Prop :=
  ∀ row ∈ st.sessions, row.revokedAt = none → ∀ login providerId, .loggedIn login (some providerId) ∈ st.log →
    login.familyId = row.familyId →
      ∃ identity ∈ st.identities, row.externalIdentityId = some identity.id ∧ identity.providerId = providerId

/-- The rows that are not revoked are rows of the old table, and no login is new. -/
theorem Bound.frame (hs : Bound st) (hrows : ∀ row ∈ st'.sessions, row.revokedAt = none → row ∈ st.sessions)
    (hids : ∀ identity ∈ st.identities, identity ∈ st'.identities)
    (hlog : ∀ login providerId, .loggedIn login (some providerId) ∈ st'.log →
      .loggedIn login (some providerId) ∈ st.log) : Bound st' := by
  intro row hrow hlive login providerId hlogin hfamily
  obtain ⟨identity, hmem, he⟩ := hs row (hrows row hrow hlive) hlive login providerId
    (hlog login providerId hlogin) hfamily
  exact ⟨identity, hids identity hmem, he⟩

/-- An update that revokes leaves the other rows as they are. -/
theorem mem_of_live {f : Session → Session} (hf : ∀ r, (f r).revokedAt.isSome) {pred : Session → Bool}
    {rows : List Session} {row : Session} (h : row ∈ Rows.updateMany pred f rows) (hlive : row.revokedAt = none) :
    row ∈ rows ∧ pred row = false := by
  rcases Rows.of_mem_updateMany h with hold | ⟨old, -, -, rfl⟩
  · exact hold
  · have hsome := hf old
    rw [hlive] at hsome
    cases hsome

/-- Identities can go when no session that is not revoked is bound to them. -/
theorem Bound.delete (hs : Bound st) {pred : ExternalIdentity → Bool}
    (hfree : ∀ row ∈ st.sessions, row.revokedAt = none → ∀ identity ∈ st.identities, pred identity = true →
      row.externalIdentityId ≠ some identity.id) : Bound (deleteIdentities st pred) := by
  intro row hrow hlive login providerId hlogin hfamily
  -- a bound row is not detached, and its identity stays
  have hold : row ∈ st.sessions := by
    rcases Rows.of_mem_updateMany hrow with ⟨hold, -⟩ | ⟨old, hold, hgone, rfl⟩
    · exact hold
    · obtain ⟨id, hid, hany⟩ := (Option.any_eq_true _ _).mp hgone
      obtain ⟨identity, hmem, hpred⟩ := List.any_eq_true.mp hany
      simp only [Bool.and_eq_true, beq_iff_eq] at hpred
      exact absurd (by rw [hid, hpred.2]) (hfree old hold hlive identity hmem hpred.1)
  obtain ⟨identity, hmem, hext, hprovider⟩ := hs row hold hlive login providerId hlogin hfamily
  refine ⟨identity, Rows.mem_deleteMany.mpr ⟨hmem, ?_⟩, hext, hprovider⟩
  cases hp : pred identity with
  | false => rfl
  | true => exact absurd hext (hfree row hold hlive identity hmem hp)

/-- A provider is deleted while no session that is not revoked is bound to one of its identities. -/
def removalClean (s : Sys) : Label → Bool
  | .exec i _ =>
    match s.calls[i]? with
    | some (.removeDelete provider) =>
      s.store.sessions.all fun row => row.revokedAt.isSome ||
        !s.store.identities.any fun identity =>
          identity.providerId == provider.id && row.externalIdentityId == some identity.id
    | _ => true
  | .start _ => true

theorem bound_exec (h : Exec env st c p st' q) (hf : Families st) (hi : Identities st) (hs : Bound st)
    (hk : KnownIdentity st.log p)
    (hclean : ∀ provider, p = .removeDelete provider → ∀ row ∈ st.sessions, row.revokedAt = none →
      ∀ identity ∈ st.identities, (identity.providerId == provider.id) = true →
        row.externalIdentityId ≠ some identity.id) : Bound st' := by
  cases h with
  | loggedIn hnew hfresh hidentity =>
    rename_i userId context external session a
    subst hnew
    intro row hrow hlive login providerId hlogin hfamily
    rcases List.mem_append.mp hrow with hrow | hrow
    · rcases List.mem_cons.mp hlogin with hlogin | hlogin
      · obtain ⟨rfl, -⟩ := Event.loggedIn.inj hlogin
        exact absurd hfamily.symm (hf.rows_fresh hfresh row hrow).2.2
      · exact hs row hrow hlive login providerId hlogin hfamily
    · rw [List.mem_singleton.mp hrow] at hfamily ⊢
      rcases List.mem_cons.mp hlogin with hlogin | hlogin
      · cases external with
        | none => cases hlogin
        | some e =>
          cases hlogin
          obtain ⟨identity, hmem, hid⟩ := hidentity e rfl
          exact ⟨identity, hmem, by rw [hid]; rfl, hi.providerId_eq hmem hid hk⟩
      · exact absurd hfamily (hf.family_ne hfresh login (List.mem_filterMap.mpr ⟨_, hlogin, rfl⟩))
  | rotated hmem hhash hrefused hrotated hrevoked hone hfresh hnew =>
    rename_i payload tokenHash now context session replacement a
    subst hnew
    intro row hrow hlive login providerId hlogin hfamily
    have hlogin : .loggedIn login (some providerId) ∈ st.log := by simpa using hlogin
    rcases List.mem_append.mp hrow with hrow | hrow
    · exact hs row (mem_of_live (fun _ => rfl) hrow hlive).1 hlive login providerId hlogin hfamily
    · rw [List.mem_singleton.mp hrow] at hfamily ⊢
      exact hs session hmem hrevoked login providerId hlogin hfamily
  | reused hmem =>
    exact hs.frame (fun row hrow hlive => (mem_of_live (fun _ => rfl) hrow hlive).1) (fun _ h => h)
      fun login providerId hlogin => by simpa using hlogin
  | loggedOut =>
    exact hs.frame (fun row hrow hlive => (mem_of_live (fun _ => rfl) hrow hlive).1) (fun _ h => h)
      fun login providerId hlogin => by simpa using hlogin
  | logoutUnknown hnone => exact hs.frame (fun _ h _ => h) (fun _ h => h) fun _ _ hlogin => by simpa using hlogin
  | passwordSet hp =>
    exact hs.frame (fun row hrow _ => (Rows.mem_deleteMany.mp hrow).1) (fun _ h => h)
      fun _ _ hlogin => by simpa [setPassword] using hlogin
  | linked hfresh =>
    exact hs.frame (fun _ h _ => h) (fun _ h => List.mem_append_left _ h) fun _ _ hlogin => by simpa using hlogin
  | unlinked hmem =>
    rename_i identity a
    have hrevoked : Bound { st with
        sessions := Rows.updateMany
          (fun session => session.externalIdentityId == some identity.id && session.revokedAt.isNone)
          (Session.revoke c.now) st.sessions } :=
      hs.frame (fun row hrow hlive => (mem_of_live (fun _ => rfl) hrow hlive).1) (fun _ h => h) fun _ _ h => h
    refine hrevoked.delete fun row hrow hlive gone _ hgone hext => ?_
    have hno := (mem_of_live (fun _ => rfl) hrow hlive).2
    simp [hext, hlive, beq_iff_eq.mp hgone] at hno
  | providerRemoved => exact Bound.delete hs (hclean _ rfl)
  | _ => exact hs.frame (fun _ h _ => h) (fun _ h => h) fun _ _ h => h

/-! ## Every run -/

structure BoundStore (st : Store) : Prop where
  families : Families st
  identities : Identities st
  bound : Bound st

def BoundInv : Sys → Prop := Interleave.Inv BoundStore fun _ st p => KnownIdentity st.log p

theorem boundInv_init (setup : Setup) : BoundInv (init setup) where
  store :=
    { families := (familyInv_init setup).store.families
      identities :=
        { ids := by
            have hids : (init setup).store.log.filterMap Event.identityId = setup.identities.map ExternalIdentity.id := by
              simp [init, List.filterMap_map, Function.comp_def]
            rw [hids]
            exact setup.identityIds
          rows := fun identity hmem => List.mem_map.mpr ⟨identity, hmem, rfl⟩
          codes := fun code hcode => nomatch hcode }
      bound := fun row hrow => nomatch hrow }
  calls i p hp := by simp [init] at hp

theorem boundInv_step (s : Sys) (l : Label) (t : Sys) (hs : BoundInv s) (hclean : removalClean s l = true)
    (h : step env s l = some t) : BoundInv t := by
  refine Interleave.inv_step (P := fun s l => removalClean s l = true) ?_ ?_ l hs hclean h
  · intro i st r _
    cases r <;> trivial
  · intro s i p c st q hs hclean hp hq
    have he := exec_of_stmt hq
    have hk := hs.calls i p hp
    refine ⟨⟨families_exec he hs.store.families, identities_exec he hs.store.identities hk, ?_⟩,
      knownIdentity_exec he hs.store.identities hk, fun j p' _ hp' =>
        knownIdentity_mono (log_suffix he) (hs.calls j p' hp')⟩
    refine bound_exec he hs.store.families hs.store.identities hs.store.bound hk ?_
    rintro provider rfl row hrow hlive identity hmem hprovider hext
    simp only [removalClean, hp, List.all_eq_true] at hclean
    have hrow' := hclean row hrow
    simp only [hlive, Option.isSome_none, Bool.false_or, Bool.not_eq_true', List.any_eq_false, Bool.and_eq_true,
      not_and] at hrow'
    exact hrow' identity hmem hprovider (by simp [hext])

def Point.succeeded : Point → Bool
  | .done (.ok _) => true
  | _ => false

/-- **A refresh of an external session needs its provider**, in the runs whose provider deletions are clean. -/
theorem sso_session_checked {setup : Setup} {ls : List Label} {s t : Sys} {i : Nat} {c : Choice} {tokenHash : String}
    {now : Time} {session login : Session} {providerId : String}
    (hrun : Runs.run (step env) (init setup) ls = some s)
    (hclean : Runs.Along (step env) (fun s l => removalClean s l = true) (init setup) ls)
    (hstep : step env s (.exec i c) = some t) (hcall : s.calls[i]?.bind Point.refreshing = some (tokenHash, now))
    (hok : t.calls[i]?.any Point.succeeded = true) (hsession : s.store.session tokenHash = some session)
    (hlogin : .loggedIn login (some providerId) ∈ s.store.log) (hfamily : login.familyId = session.familyId) :
    ∃ provider ∈ s.store.providers, provider.id = providerId ∧ provider.isActive = true ∧
      ∃ recheck, session.providerRecheckAfter = some recheck ∧ now < recheck := by
  have hinv : BoundInv s := Runs.inv_run_along boundInv_step (boundInv_init setup) hclean hrun
  obtain ⟨p, st, q, hp, hq, rfl⟩ := Interleave.step_exec hstep
  have hlt : i < s.calls.length := (List.getElem?_eq_some_iff.mp hp).1
  rw [List.getElem?_set_self hlt] at hok
  rw [hp] at hcall
  have he := exec_of_stmt hq
  cases p with
  | refreshTx payload tokenHash' now' context =>
    cases hcall
    cases he with
    | refused e => cases hok
    | reused hmem => cases hok
    | moved hplain => cases q <;> first | cases hok | cases hplain
    | answered hp => cases hp
    | wrote hp => cases hp
    | passwordSet hp => cases hp
    | rotated hmem hhash hrefused hrotated hrevoked hone hfresh hnew =>
      rename_i session' replacement a
      have hsame : session' = session := by
        have hfound : session ∈ s.store.sessions := List.mem_of_find?_eq_some hsession
        have hhash' : session.tokenHash = tokenHash := by simpa using List.find?_some hsession
        exact hinv.store.families.eq_of_hash hmem hfound (hhash.trans hhash'.symm)
      subst hsame
      obtain ⟨-, -, hcheck⟩ := Session.refused_eq_false hrefused
      obtain ⟨identity, hid, hext, hprovider⟩ := hinv.store.bound session' hmem hrevoked login providerId hlogin hfamily
      obtain ⟨hactive, hrecheck⟩ := hcheck (by rw [hext]; rfl)
      -- the session's identity is found by its id, and the provider by the identity
      simp only [Store.providerActive, hext, Option.bind_some, Option.any_eq_true, Option.bind_eq_some_iff] at hactive
      obtain ⟨provider, ⟨found, hfound, hfind⟩, hon⟩ := hactive
      have hfoundId : found.id = identity.id := by simpa using List.find?_some hfound
      have hfoundProvider : found.providerId = providerId :=
        hinv.store.identities.providerId_eq (List.mem_of_find?_eq_some hfound) hfoundId
          ⟨identity, hinv.store.identities.rows identity hid, rfl, hprovider⟩
      refine ⟨provider, List.mem_of_find?_eq_some hfind, ?_, hon, hrecheck⟩
      have hpid : provider.id = found.providerId := by simpa using List.find?_some hfind
      exact hpid.trans hfoundProvider
  | _ => cases hcall

/-! ## One external session -/

namespace Demo

def ssoUser : User := ⟨"user", "user@wiki", "", true, false, false⟩

def identity : ExternalIdentity := ⟨"identity", "provider", "user", "https://idp", "subject"⟩

def ssoSetup : Setup := ⟨[ssoUser], "true", [⟨"provider", "IdP", true, 480⟩], [identity], List.nodup_singleton _⟩

/-- The user logs in through the provider. -/
def ssoLogin : List Label :=
  [.start (.completeLogin "provider" "https://idp" "subject" context), .exec 0 ⟨0, "", "", true⟩,
    .exec 0 ⟨0, "", "code", true⟩, .start (.exchangeLoginCode "code" context), .exec 1 ⟨1, "", "", true⟩,
    .exec 1 ⟨1, "", "", true⟩, .exec 1 ⟨1, "session0", "token0", true⟩]

/-- The refresh, up to its transaction. -/
def ssoRefresh (i : Nat) : List Label := [.start (.refreshToken "token0" context), .exec i ⟨2, "", "", true⟩]

def removeProvider : List Label :=
  [.start (.removeProvider "provider" true), .exec 2 ⟨1, "", "", true⟩, .exec 2 ⟨1, "", "", true⟩]

def finish : Choice := ⟨2, "session1", "token1", true⟩

/-- The next step of call `i` is a successful refresh of the session of `token0`, which is a login of the provider. -/
def refreshes (s : Sys) (i : Nat) : Bool :=
  s.calls[i]?.bind Point.refreshing == some ("refresh:token0", 2) &&
    (step plainEnv s (.exec i finish)).any (fun t => t.calls[i]?.any Point.succeeded) &&
    (s.store.session "refresh:token0").any fun session =>
      session.familyId == "session0" && s.store.log.any fun e =>
        match e with
        | .loggedIn login providerId => login.familyId == "session0" && providerId == some "provider"
        | _ => false

end Demo

theorem exists_of_refreshes {s : Sys} {i : Nat} (h : Demo.refreshes s i = true) : ∃ t session login,
    s.calls[i]?.bind Point.refreshing = some ("refresh:token0", 2) ∧
      step Demo.plainEnv s (.exec i Demo.finish) = some t ∧ t.calls[i]?.any Point.succeeded = true ∧
      s.store.session "refresh:token0" = some session ∧ .loggedIn login (some "provider") ∈ s.store.log ∧
      login.familyId = session.familyId := by
  simp only [Demo.refreshes, Bool.and_eq_true, beq_iff_eq, Option.any_eq_true, List.any_eq_true] at h
  obtain ⟨⟨hcall, t, hstep, hok⟩, session, hsession, hfamily, e, he, hlogin⟩ := h
  cases e with
  | loggedIn login providerId =>
    simp only [Bool.and_eq_true, beq_iff_eq] at hlogin
    exact ⟨t, session, login, hcall, hstep, (Option.any_eq_true _ _).mpr hok, hsession, hlogin.2 ▸ he,
      hlogin.1.trans hfamily.symm⟩
  | _ => cases hlogin

theorem sso_session_checked_refresh : ∃ s,
    Runs.run (step Demo.plainEnv) (init Demo.ssoSetup) (Demo.ssoLogin ++ Demo.ssoRefresh 2) = some s ∧
      ∃ provider ∈ s.store.providers, provider.id = "provider" ∧ provider.isActive = true := by
  have hrun : (Runs.run (step Demo.plainEnv) (init Demo.ssoSetup) (Demo.ssoLogin ++ Demo.ssoRefresh 2)).any
      fun s => Demo.refreshes s 2 := by
    decide +kernel
  have hclean : Runs.Along (step Demo.plainEnv) (fun s l => removalClean s l = true) (init Demo.ssoSetup)
      (Demo.ssoLogin ++ Demo.ssoRefresh 2) := by
    decide +kernel
  obtain ⟨s, hs, hrefresh⟩ := (Option.any_eq_true _ _).mp hrun
  obtain ⟨t, session, login, hcall, hstep, hok, hsession, hlogin, hfamily⟩ := exists_of_refreshes hrefresh
  obtain ⟨provider, hmem, hid, hon, -⟩ :=
    sso_session_checked hs hclean hstep hcall hok hsession hlogin hfamily
  exact ⟨s, hs, provider, hmem, hid, hon⟩

/-- The provider is deleted, and the session is refreshed all the same. -/
theorem sso_session_outlives_provider : ∃ s t session login,
    Runs.run (step Demo.plainEnv) (init Demo.ssoSetup)
      (Demo.ssoLogin ++ Demo.removeProvider ++ Demo.ssoRefresh 3) = some s ∧
      s.calls[3]?.bind Point.refreshing = some ("refresh:token0", 2) ∧
      step Demo.plainEnv s (.exec 3 Demo.finish) = some t ∧ t.calls[3]?.any Point.succeeded = true ∧
      s.store.session "refresh:token0" = some session ∧ .loggedIn login (some "provider") ∈ s.store.log ∧
      login.familyId = session.familyId ∧ s.store.providers = [] := by
  have hrun : (Runs.run (step Demo.plainEnv) (init Demo.ssoSetup)
      (Demo.ssoLogin ++ Demo.removeProvider ++ Demo.ssoRefresh 3)).any
      fun s => Demo.refreshes s 3 && s.store.providers.isEmpty := by
    decide +kernel
  obtain ⟨s, hs, hboth⟩ := (Option.any_eq_true _ _).mp hrun
  rw [Bool.and_eq_true, List.isEmpty_iff] at hboth
  obtain ⟨t, session, login, hcall, hstep, hok, hsession, hlogin, hfamily⟩ := exists_of_refreshes hboth.1
  exact ⟨s, t, session, login, hs, hcall, hstep, hok, hsession, hlogin, hfamily, hboth.2⟩

end AdWiki.Auth
