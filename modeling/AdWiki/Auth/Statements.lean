import AdWiki.Auth.AuthService

/-!
# What one transaction of the session services does

`Exec env st c p st' q`: with the outside choices `c`, a call at point `p` takes the store `st` to `st'` and is then at
point `q`. The cases say what happens to the sessions, the identities and the record of what has happened; points
that carry nothing the proofs rely on are `plain`.

* `exec_of_stmt`: every statement is one of the cases.
* `log_suffix`: what has happened stays on record.
-/

namespace AdWiki.Auth

variable {env : Env}

/-- Points in whose hands nothing has to be remembered. -/
def Point.plain : Point → Bool
  | .refreshCandidate .. | .refreshSync .. | .refreshTx .. => true
  | .changeTx .. | .requestTx .. | .resetTx .. => true
  | .updateCount .. | .updateWrite .. | .removeCount .. | .removeDelete .. => true
  | _ => false

/-- The token hash and the time of a call whose next statement is the refresh transaction. -/
def Point.refreshing : Point → Option (String × Time)
  | .refreshTx _ tokenHash now _ => some (tokenHash, now)
  | _ => none

section Exec

variable (env) (st : Store) (c : Choice)

/-- One case for each kind of statement. -/
inductive Exec : Point → Store → Point → Prop
  | refused {p : Point} (e : HttpError) : Exec p st (.done (.error e))
  | answered {p : Point} (hp : p.refreshing = none) (a : Answer) : Exec p st (.done (.ok a))
  | moved {p q : Point} (hq : q.plain = true) : Exec p st q
  | loginFound {email password context userId} :
    Exec (.loginFind email password context) st (.issueTokens userId context none)
  | wrote {p : Point} {users providers loginCodes resetTokens} {a : Answer} (hp : p.refreshing = none)
    (hcodes : ∀ code ∈ loginCodes, code ∈ st.loginCodes) :
    Exec p { st with users := users, providers := providers, loginCodes := loginCodes, resetTokens := resetTokens }
      (.done (.ok a))
  | codeConsumed {code context record} {minutes : Nat} (hmem : record ∈ st.loginCodes) :
    Exec (.codeConsume code context)
      { st with
        loginCodes := Rows.updateMany (fun row => row.tokenHash == record.tokenHash && row.usedAt.isNone)
          (fun row => { row with usedAt := some c.now }) st.loginCodes }
      (.codeUser record minutes context)
  | codeUser {record minutes context} {external : ExternalSessionContext}
    (hid : external.externalIdentityId = record.externalIdentityId) :
    Exec (.codeUser record minutes context) st
      (.issueTokens record.userId context (some (external, record.providerId)))
  | loggedIn {userId context external session} {a : Answer}
    (hnew : session = Session.login userId context (external.map Prod.fst) c.id (env.hashRefreshToken c.token)
      (env.refreshExpiryDate c.token c.now))
    (hfresh : st.fresh c.id (env.hashRefreshToken c.token) = true)
    (hidentity : ∀ e, external = some e → ∃ identity ∈ st.identities, identity.id = e.1.externalIdentityId) :
    Exec (.issueTokens userId context external)
      { st with
        sessions := st.sessions ++ [session], log := .loggedIn session (external.map Prod.snd) :: st.log }
      (.done (.ok a))
  | codeFound {providerId issuer subject context identity} (hmem : identity ∈ st.identities) :
    Exec (.loginCodeFind providerId issuer subject context) st (.loginCodeTx identity context)
  | codeCreated {identity context code} {a : Answer} (hidentity : code.externalIdentityId = identity.id)
    (hprovider : code.providerId = identity.providerId) :
    Exec (.loginCodeTx identity context) { st with loginCodes := st.loginCodes ++ [code] } (.done (.ok a))
  | rotated {payload tokenHash now context session replacement} {a : Answer} (hmem : session ∈ st.sessions)
    (hhash : session.tokenHash = tokenHash)
    (hrefused : session.refused payload now (st.providerActive session) = false)
    (hrotated : session.rotatedAt = none) (hrevoked : session.revokedAt = none)
    (hone : st.sessions.countP (Session.consumable session.id now) = 1)
    (hfresh : st.fresh c.id (env.hashRefreshToken c.token) = true)
    (hnew : replacement = session.replacement context c.id (env.hashRefreshToken c.token)
      (env.refreshExpiryDate c.token c.now)) :
    Exec (.refreshTx payload tokenHash now context)
      { st with
        sessions :=
          Rows.updateMany (Session.consumable session.id now) (Session.consume now) st.sessions ++ [replacement]
        log := .rotated session replacement :: st.log }
      (.done (.ok a))
  | reused {payload tokenHash now context session} {e : HttpError} (hmem : session ∈ st.sessions) :
    Exec (.refreshTx payload tokenHash now context)
      { revokeFamily st session.familyId now with log := .reused session.familyId :: st.log } (.done (.error e))
  | logoutFound {tokenHash session} (hmem : session ∈ st.sessions) (hhash : session.tokenHash = tokenHash) :
    Exec (.logoutFind tokenHash) st (.logoutRevoke tokenHash session.familyId)
  | logoutUnknown {tokenHash} {a : Answer} (hnone : ∀ row ∈ st.sessions, row.tokenHash ≠ tokenHash) :
    Exec (.logoutFind tokenHash) { st with log := .loggedOut tokenHash :: st.log } (.done (.ok a))
  | loggedOut {tokenHash familyId} {a : Answer} :
    Exec (.logoutRevoke tokenHash familyId)
      { revokeFamily st familyId c.now with log := .loggedOut tokenHash :: st.log } (.done (.ok a))
  | passwordSet {p : Point} {userId passwordHash now} {a : Answer} (hp : p.refreshing = none) :
    Exec p (setPassword st userId passwordHash now) (.done (.ok a))
  | linked {providerId userId issuer subject} {identity : ExternalIdentity} {a : Answer}
    (hfresh : identity.id ∉ st.log.filterMap Event.identityId) :
    Exec (.linkTx providerId userId issuer subject)
      { st with identities := st.identities ++ [identity], log := .linked identity :: st.log } (.done (.ok a))
  | unlinked {providerId userId identityId issuer subject identity} {a : Answer} (hmem : identity ∈ st.identities) :
    Exec (.unlinkTx providerId userId identityId issuer subject)
      (deleteIdentities
        { st with
          sessions := Rows.updateMany
            (fun session => session.externalIdentityId == some identity.id && session.revokedAt.isNone)
            (Session.revoke c.now) st.sessions }
        (·.id == identity.id)) (.done (.ok a))
  | providerRemoved {provider} {a : Answer} :
    Exec (.removeDelete provider)
      { deleteIdentities st (·.providerId == provider.id) with
        providers := Rows.deleteMany (·.id == provider.id) st.providers } (.done (.ok a))

end Exec

variable {st st' : Store} {i : Nat} {p q : Point} {c : Choice}

theorem exec_of_refused {e : HttpError} (h : refused st e = some (st', q)) : Exec env st c p st' q := by
  cases h
  exact .refused e

section Branches

attribute [local simp] stmt

theorem exec_of_refreshTx {payload : JwtPayload} {tokenHash : String} {now : Time} {context : RequestContext}
    (h : refreshTx env st payload tokenHash now context c = some (st', q)) :
    Exec env st c (.refreshTx payload tokenHash now context) st' q := by
  simp only [refreshTx] at h
  cases hs : st.session tokenHash with
  | none =>
    rw [hs] at h
    exact exec_of_refused h
  | some session =>
    rw [hs] at h
    have hmem := List.mem_of_find?_eq_some hs
    have hhash : session.tokenHash = tokenHash := by simpa using List.find?_some hs
    simp only at h
    split at h
    · exact exec_of_refused h
    · next hrefused =>
      split at h
      · cases h
        exact .reused hmem
      · next hrotated =>
        split at h
        · exact exec_of_refused h
        · next hlive =>
          split at h
          · split at h
            · cases h
              exact .reused hmem
            · exact exec_of_refused h
          · next hone =>
            split at h
            · next hfresh =>
              cases h
              have hrevoked : session.revokedAt = none := by
                simpa using (not_or.mp hlive).1
              exact .rotated hmem hhash (by simpa using hrefused) (by simpa using hrotated) hrevoked
                (not_not.mp hone) hfresh rfl
            · cases h

theorem exec_of_linkTx {providerId userId issuer subject : String}
    (h : linkTx st providerId userId issuer subject c = some (st', q)) :
    Exec env st c (.linkTx providerId userId issuer subject) st' q := by
  simp only [linkTx] at h
  split at h
  · exact exec_of_refused h
  · split at h
    · split at h
      · exact exec_of_refused h
      · cases h
        exact .answered rfl _
    · split at h
      · exact exec_of_refused h
      · split at h
        · exact exec_of_refused h
        · split at h
          · cases h
          · next hfresh =>
            cases h
            exact .linked (by simpa using hfresh)

theorem unlinkTx_ok {providerId userId identityId issuer subject : String} {now : Time}
    (h : unlinkTx st providerId userId identityId issuer subject now = .ok st') :
    ∃ identity ∈ st.identities, st' = deleteIdentities
      { st with
        sessions := Rows.updateMany
          (fun session => session.externalIdentityId == some identity.id && session.revokedAt.isNone)
          (Session.revoke now) st.sessions } (·.id == identity.id) := by
  simp only [unlinkTx] at h
  split at h
  · cases h
  · next identity hfind =>
    split at h
    · cases h
    · split at h
      · cases h
      · exact ⟨identity, List.mem_of_find?_eq_some hfind, (Except.ok.inj h).symm⟩

theorem exec_of_unlinkTx {providerId userId identityId issuer subject : String}
    (h : stmt env st i (.unlinkTx providerId userId identityId issuer subject) c = some (st', q)) :
    Exec env st c (.unlinkTx providerId userId identityId issuer subject) st' q := by
  simp only [stmt] at h
  cases hu : unlinkTx st providerId userId identityId issuer subject c.now with
  | error e =>
    rw [hu] at h
    exact exec_of_refused h
  | ok st1 =>
    rw [hu] at h
    cases h
    obtain ⟨identity, hmem, rfl⟩ := unlinkTx_ok hu
    exact .unlinked hmem

theorem exec_of_loginFind {email password : String} {context : RequestContext}
    (h : stmt env st i (.loginFind email password context) c = some (st', q)) :
    Exec env st c (.loginFind email password context) st' q := by
  simp only [stmt] at h
  split at h
  · exact exec_of_refused h
  · split at h
    · exact exec_of_refused h
    · split at h
      · exact exec_of_refused h
      · split at h
        · exact exec_of_refused h
        · cases h
          exact .loginFound

theorem exec_of_issueTokens {userId : String} {context : RequestContext}
    {external : Option (ExternalSessionContext × String)}
    (h : stmt env st i (.issueTokens userId context external) c = some (st', q)) :
    Exec env st c (.issueTokens userId context external) st' q := by
  simp only [stmt] at h
  split at h
  · cases h
  · next hfresh =>
    split at h
    · exact exec_of_refused h
    · split at h
      · exact exec_of_refused h
      · next hidentity =>
        cases h
        refine .loggedIn rfl (by simpa using hfresh) fun e he => ?_
        subst he
        simp only [Option.any_some, Bool.not_eq_true, Option.isNone_eq_false_iff] at hidentity
        obtain ⟨identity, hfind⟩ := Option.isSome_iff_exists.mp hidentity
        exact ⟨identity, List.mem_of_find?_eq_some hfind, by simpa using List.find?_some hfind⟩

theorem exec_of_codeConsume {code : String} {context : RequestContext}
    (h : stmt env st i (.codeConsume code context) c = some (st', q)) :
    Exec env st c (.codeConsume code context) st' q := by
  simp only [stmt] at h
  split at h
  · exact exec_of_refused h
  · next record hfind =>
    split at h
    · exact exec_of_refused h
    · split at h
      · exact exec_of_refused h
      · cases h
        exact .codeConsumed (List.mem_of_find?_eq_some hfind)

theorem exec_of_codeUser {record : OidcLoginCode} {minutes : Nat} {context : RequestContext}
    (h : stmt env st i (.codeUser record minutes context) c = some (st', q)) :
    Exec env st c (.codeUser record minutes context) st' q := by
  simp only [stmt] at h
  split at h
  · exact exec_of_refused h
  · cases h
    exact .codeUser rfl

theorem exec_of_refreshVerify {token : String} {context : RequestContext}
    (h : stmt env st i (.refreshVerify token context) c = some (st', q)) :
    Exec env st c (.refreshVerify token context) st' q := by
  simp only [stmt] at h
  split at h
  · exact exec_of_refused h
  · split at h
    · exact exec_of_refused h
    · split at h <;> cases h <;> exact .moved rfl

theorem exec_of_refreshSync {payload : JwtPayload} {tokenHash : String} {now : Time} {context : RequestContext}
    (h : stmt env st i (.refreshSync payload tokenHash now context) c = some (st', q)) :
    Exec env st c (.refreshSync payload tokenHash now context) st' q := by
  simp only [stmt] at h
  split at h
  · cases h
    exact .moved rfl
  · exact exec_of_refused h

theorem exec_of_logoutFind {tokenHash : String}
    (h : stmt env st i (.logoutFind tokenHash) c = some (st', q)) : Exec env st c (.logoutFind tokenHash) st' q := by
  simp only [stmt] at h
  cases hs : st.session tokenHash with
  | none =>
    rw [hs] at h
    cases h
    exact .logoutUnknown fun row hrow he => by simpa [he] using List.find?_eq_none.mp hs row hrow
  | some session =>
    rw [hs] at h
    cases h
    exact .logoutFound (List.mem_of_find?_eq_some hs) (by simpa using List.find?_some hs)

theorem exec_of_changeFind {userId currentPassword newPassword : String}
    (h : stmt env st i (.changeFind userId currentPassword newPassword) c = some (st', q)) :
    Exec env st c (.changeFind userId currentPassword newPassword) st' q := by
  simp only [stmt] at h
  split at h
  · exact exec_of_refused h
  · split at h
    · exact exec_of_refused h
    · cases h
      exact .moved rfl

theorem exec_of_changeTx {userId passwordHash : String}
    (h : stmt env st i (.changeTx userId passwordHash) c = some (st', q)) :
    Exec env st c (.changeTx userId passwordHash) st' q := by
  simp only [stmt] at h
  split at h
  · exact exec_of_refused h
  · cases h
    exact .passwordSet rfl

theorem exec_of_requestFind {email : String}
    (h : stmt env st i (.requestFind email) c = some (st', q)) : Exec env st c (.requestFind email) st' q := by
  simp only [stmt] at h
  split at h
  · cases h
    exact .answered rfl _
  · split at h
    · cases h
      exact .moved rfl
    · cases h
      exact .answered rfl _

theorem exec_of_requestTx {userId : String}
    (h : stmt env st i (.requestTx userId) c = some (st', q)) : Exec env st c (.requestTx userId) st' q := by
  simp only [stmt] at h
  split at h
  · exact exec_of_refused h
  · cases h
    exact .wrote rfl fun _ hcode => hcode

theorem exec_of_resetFind {tokenHash newPassword : String}
    (h : stmt env st i (.resetFind tokenHash newPassword) c = some (st', q)) :
    Exec env st c (.resetFind tokenHash newPassword) st' q := by
  simp only [stmt] at h
  split at h
  · exact exec_of_refused h
  · split at h
    · exact exec_of_refused h
    · cases h
      exact .moved rfl

theorem exec_of_resetTx {reset : PasswordResetToken} {now : Time} {passwordHash : String}
    (h : stmt env st i (.resetTx reset now passwordHash) c = some (st', q)) :
    Exec env st c (.resetTx reset now passwordHash) st' q := by
  simp only [stmt] at h
  split at h
  · exact exec_of_refused h
  · split at h
    · exact exec_of_refused h
    · cases h
      exact .passwordSet rfl

theorem exec_of_loginCodeFind {providerId issuer subject : String} {context : RequestContext}
    (h : stmt env st i (.loginCodeFind providerId issuer subject context) c = some (st', q)) :
    Exec env st c (.loginCodeFind providerId issuer subject context) st' q := by
  simp only [stmt] at h
  split at h
  · exact exec_of_refused h
  · next identity hfind =>
    split at h
    · exact exec_of_refused h
    · split at h
      · exact exec_of_refused h
      · cases h
        exact .codeFound (List.mem_of_find?_eq_some hfind)

theorem exec_of_loginCodeTx {identity : ExternalIdentity} {context : RequestContext}
    (h : stmt env st i (.loginCodeTx identity context) c = some (st', q)) :
    Exec env st c (.loginCodeTx identity context) st' q := by
  simp only [stmt] at h
  split at h
  · exact exec_of_refused h
  · cases h
    exact .codeCreated rfl rfl

theorem exec_of_updateFind {id : String} {isActive : Option Bool} {minutes : Option Nat} {confirm : Bool}
    (h : stmt env st i (.updateFind id isActive minutes confirm) c = some (st', q)) :
    Exec env st c (.updateFind id isActive minutes confirm) st' q := by
  simp only [stmt] at h
  split at h
  · exact exec_of_refused h
  · split at h
    · exact exec_of_refused h
    · split at h <;> cases h <;> exact .moved rfl

theorem exec_of_updateCount {id : String} {isActive : Option Bool} {minutes : Option Nat}
    (h : stmt env st i (.updateCount id isActive minutes) c = some (st', q)) :
    Exec env st c (.updateCount id isActive minutes) st' q := by
  simp only [stmt] at h
  split at h
  · exact exec_of_refused h
  · cases h
    exact .moved rfl

theorem exec_of_updateWrite {id : String} {isActive : Option Bool} {minutes : Option Nat}
    (h : stmt env st i (.updateWrite id isActive minutes) c = some (st', q)) :
    Exec env st c (.updateWrite id isActive minutes) st' q := by
  simp only [stmt] at h
  split at h
  · exact exec_of_refused h
  · cases h
    exact .wrote rfl fun _ hcode => hcode

theorem exec_of_removeFind {id : String} {confirm : Bool}
    (h : stmt env st i (.removeFind id confirm) c = some (st', q)) : Exec env st c (.removeFind id confirm) st' q := by
  simp only [stmt] at h
  split at h
  · exact exec_of_refused h
  · split at h <;> cases h <;> exact .moved rfl

theorem exec_of_removeCount {provider : IdentityProvider}
    (h : stmt env st i (.removeCount provider) c = some (st', q)) : Exec env st c (.removeCount provider) st' q := by
  simp only [stmt] at h
  split at h
  · exact exec_of_refused h
  · cases h
    exact .moved rfl

theorem exec_of_removeDelete {provider : IdentityProvider}
    (h : stmt env st i (.removeDelete provider) c = some (st', q)) : Exec env st c (.removeDelete provider) st' q := by
  simp only [stmt] at h
  split at h
  · exact exec_of_refused h
  · cases h
    exact .providerRemoved

end Branches

/-- **Every statement is one of the cases.** -/
theorem exec_of_stmt (h : stmt env st i p c = some (st', q)) : Exec env st c p st' q := by
  cases p with
  | refreshTx payload tokenHash now context => exact exec_of_refreshTx h
  | linkTx providerId userId issuer subject => exact exec_of_linkTx h
  | unlinkTx providerId userId identityId issuer subject => exact exec_of_unlinkTx h
  | loginFind email password context => exact exec_of_loginFind h
  | issueTokens userId context external => exact exec_of_issueTokens h
  | codeConsume code context => exact exec_of_codeConsume h
  | codeUser record minutes context => exact exec_of_codeUser h
  | refreshVerify token context => exact exec_of_refreshVerify h
  | refreshCandidate payload tokenHash now context =>
    simp only [stmt] at h
    split at h <;> cases h <;> exact .moved rfl
  | refreshSync payload tokenHash now context => exact exec_of_refreshSync h
  | logoutFind tokenHash => exact exec_of_logoutFind h
  | logoutRevoke tokenHash familyId =>
    cases h
    exact .loggedOut
  | changeFind userId currentPassword newPassword => exact exec_of_changeFind h
  | changeTx userId passwordHash => exact exec_of_changeTx h
  | requestFind email => exact exec_of_requestFind h
  | requestTx userId => exact exec_of_requestTx h
  | resetFind tokenHash newPassword => exact exec_of_resetFind h
  | resetTx reset now passwordHash => exact exec_of_resetTx h
  | loginCodeFind providerId issuer subject context => exact exec_of_loginCodeFind h
  | loginCodeTx identity context => exact exec_of_loginCodeTx h
  | updateFind id isActive minutes confirm => exact exec_of_updateFind h
  | updateCount id isActive minutes => exact exec_of_updateCount h
  | updateWrite id isActive minutes => exact exec_of_updateWrite h
  | removeFind id confirm => exact exec_of_removeFind h
  | removeCount provider => exact exec_of_removeCount h
  | removeDelete provider => exact exec_of_removeDelete h
  | done result => cases h

/-- What has happened stays on record. -/
theorem log_suffix (h : Exec env st c p st' q) : st.log <:+ st'.log := by
  cases h <;> first | exact List.suffix_refl _ | exact List.suffix_cons _ _

end AdWiki.Auth
