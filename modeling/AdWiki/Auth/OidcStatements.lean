import AdWiki.Auth.OidcLogin
import AdWiki.Auth.Statements
import AdWiki.Lib.Chronicle

/-!
# What one statement of the login at a provider does

`OidcExec env st i c p st' q`: with the outside choices `c`, call `i` at point `p` takes the store `st` to `st'` and is
then at point `q`. Statements of the session services that are not about identities and login codes have a summary of
their own, `SessionStep`.

* `sessionStep_of_exec`: such a statement leaves identities and login codes alone, but for the removal of a provider.
* `oidcExec_of_stmt`: every statement is one of the cases.
-/

namespace AdWiki.Auth

/-- A session that a provider's identity opened. -/
@[simp] def Event.ssoSession : Event → Option Session
  | .loggedIn session (some _) => some session
  | _ => none

@[simp] def Event.linkedIdentity : Event → Option ExternalIdentity
  | .linked identity => some identity
  | _ => none

end AdWiki.Auth

namespace AdWiki.Auth.Oidc

open Chronicle

variable {env : Env}

/-- The identity that the grant is about. -/
structure OfGrant (g : Granted) (identity : ExternalIdentity) : Prop where
  provider : identity.providerId = g.request.providerId
  issuer : identity.issuer = g.issuer
  subject : identity.subject = g.profile.subject

/-! ## The statements of the session services -/

/-- Points of calls that are not about identities and login codes. -/
def sessionPoint : Point → Bool
  | .codeConsume .. | .codeUser .. | .loginCodeFind .. | .loginCodeTx .. | .linkTx .. | .unlinkTx .. => false
  | .issueTokens _ _ external => external.isNone
  | _ => true

theorem sessionPoint_entry {r : Call} (h : ofSession r = true) : sessionPoint (entry env.auth r) = true := by
  cases r <;> first | rfl | cases h

/-- What such a statement does to the codes, the sessions of providers and the identities. -/
structure SessionStep (p : Point) (auth auth' : Store) (q : Point) : Prop where
  codes : ∀ code ∈ auth'.loginCodes, code ∈ auth.loginCodes
  log : Grows (fun e => e.ssoSession = none ∧ e.linkedIdentity = none) auth.log auth'.log
  identities : auth'.identities = auth.identities ∨ ∃ provider a, p = .removeDelete provider ∧ q = .done (.ok a) ∧
    auth'.identities = Rows.deleteMany (·.providerId == provider.id) auth.identities
  point : sessionPoint q = true

section Statements

variable {auth auth' : Store} {p q : Point} {i : Nat} {c : Auth.Choice}

theorem sessionStep_of_exec (hp : sessionPoint p = true) (h : Exec env.auth auth c p auth' q) :
    SessionStep p auth auth' q := by
  cases h with
  | refused e => exact ⟨fun _ h => h, .refl, .inl rfl, rfl⟩
  | answered hrefreshing a => exact ⟨fun _ h => h, .refl, .inl rfl, rfl⟩
  | moved hq =>
    refine ⟨fun _ h => h, .refl, .inl rfl, ?_⟩
    cases q <;> first | rfl | cases hq
  | loginFound => exact ⟨fun _ h => h, .refl, .inl rfl, rfl⟩
  | wrote hrefreshing hcodes => exact ⟨hcodes, .refl, .inl rfl, rfl⟩
  | loggedIn hnew hfresh hidentity =>
    rename_i userId context external session a
    obtain rfl : external = none := Option.isNone_iff_eq_none.mp hp
    exact ⟨fun _ h => h, .cons ⟨rfl, rfl⟩, .inl rfl, rfl⟩
  | rotated => exact ⟨fun _ h => h, .cons ⟨rfl, rfl⟩, .inl rfl, rfl⟩
  | reused => exact ⟨fun _ h => h, .cons ⟨rfl, rfl⟩, .inl rfl, rfl⟩
  | logoutFound => exact ⟨fun _ h => h, .refl, .inl rfl, rfl⟩
  | logoutUnknown => exact ⟨fun _ h => h, .cons ⟨rfl, rfl⟩, .inl rfl, rfl⟩
  | loggedOut => exact ⟨fun _ h => h, .cons ⟨rfl, rfl⟩, .inl rfl, rfl⟩
  | passwordSet => exact ⟨fun _ h => h, .cons ⟨rfl, rfl⟩, .inl rfl, rfl⟩
  | providerRemoved => exact ⟨fun _ h => (Rows.mem_deleteMany.mp h).1, .refl, .inr ⟨_, _, rfl, rfl, rfl⟩, rfl⟩
  | codeConsumed | codeUser | codeFound | codeCreated | linked | unlinked => cases hp

/-- `linkIdentity` finds the identity linked, or links a new one. -/
theorem linkTx_ok {providerId userId issuer subject : String} {a : Auth.Answer}
    (h : linkTx auth providerId userId issuer subject c = some (auth', .done (.ok a))) :
    auth' = auth ∨ c.id ∉ auth.log.filterMap Event.identityId ∧
      auth' = { auth with
        identities := auth.identities ++ [⟨c.id, providerId, userId, issuer, subject⟩]
        log := .linked ⟨c.id, providerId, userId, issuer, subject⟩ :: auth.log } := by
  simp only [linkTx, refused] at h
  split at h
  · cases h
  · split at h
    · split at h
      · cases h
      · cases h
        exact .inl rfl
    · split at h
      · cases h
      · split at h
        · cases h
        · split at h
          · cases h
          · next hfresh =>
            cases h
            exact .inr ⟨by simpa using hfresh, rfl⟩

/-- `unlinkIdentity` deletes the identity it was asked for, with issuer and subject as the provider says. -/
theorem unlinkTx_found {providerId userId identityId issuer subject : String} {now : Time}
    (h : unlinkTx auth providerId userId identityId issuer subject now = .ok auth') :
    ∃ identity ∈ auth.identities, identity.id = identityId ∧ identity.userId = userId ∧ identity.providerId = providerId ∧
      identity.issuer = issuer ∧ identity.subject = subject ∧ auth'.log = auth.log ∧
      auth'.identities = Rows.deleteMany (·.id == identityId) auth.identities ∧
      ∀ code ∈ auth'.loginCodes, code ∈ auth.loginCodes := by
  simp only [unlinkTx] at h
  split at h
  · cases h
  · next identity hfind =>
    obtain ⟨⟨hid, huser⟩, hprovider⟩ :
        (identity.id = identityId ∧ identity.userId = userId) ∧ identity.providerId = providerId := by
      simpa using List.find?_some hfind
    split at h
    · cases h
    · next hsame =>
      push Not at hsame
      split at h
      · cases h
      · cases h
        exact ⟨identity, List.mem_of_find?_eq_some hfind, hid, huser, hprovider, hsame.1, hsame.2.1,
          rfl, by rw [← hid]; rfl,
          fun code hcode => (Rows.mem_deleteMany.mp hcode).1⟩

/-- The user that `provisionIdentity` creates. -/
def ProvisionedUser (toLowerCase : String → String) (profile : MappedOidcProfile) (userId : String)
    (user : User) : Prop :=
  user.id = userId ∧ user.email = toLowerCase profile.email

/-- `provisionIdentity` creates a user with an identity. -/
theorem provisionTx_ok {providerId issuer passwordHash : String} {profile : MappedOidcProfile} {c : SignInChoice}
    {a : Auth.Answer}
    (h : provisionTx env.toLowerCase auth providerId issuer profile passwordHash c =
      some (auth', .auth (.done (.ok a)))) :
    c.id ∉ auth.log.filterMap Event.identityId ∧ auth'.loginCodes = auth.loginCodes ∧
      auth'.identities = auth.identities ++ [⟨c.id, providerId, c.userId, issuer, profile.subject⟩] ∧
      auth'.log = .linked ⟨c.id, providerId, c.userId, issuer, profile.subject⟩ :: auth.log ∧
      ∃ user, auth'.users.drop auth.users.length = [user] ∧ ProvisionedUser env.toLowerCase profile c.userId user := by
  simp only [provisionTx, signInRefused] at h
  split at h
  · cases h
  · split at h
    · cases h
    · split at h
      · cases h
      · split at h
        · cases h
        · split at h
          · cases h
          · next hfresh =>
            cases h
            have hid : (auth.log.filterMap Event.identityId).contains c.id = false := by
              simp only [Bool.or_eq_true, not_or, Bool.not_eq_true] at hfresh
              exact hfresh.2
            exact ⟨by simpa using hid, rfl, rfl, rfl, _, List.drop_left, rfl, rfl⟩

/-- `exchangeLoginCode` marks the code it finds, which was not used before. -/
theorem codeConsume_cases {code : String} {context : RequestContext}
    (h : stmt env.auth auth i (.codeConsume code context) c = some (auth', q)) :
    (∃ e, auth' = auth ∧ q = .done (.error e)) ∨ ∃ record minutes, record ∈ auth.loginCodes ∧ record.usedAt = none ∧
      c.now < record.expiresAt ∧ record.userAgentHash = env.auth.hashUserAgent context.userAgent ∧
      q = .codeUser record minutes context ∧
      auth' = { auth with
        loginCodes := Rows.updateMany (fun row => row.tokenHash == record.tokenHash && row.usedAt.isNone)
          (fun row => { row with usedAt := some c.now }) auth.loginCodes } := by
  simp only [stmt, refused] at h
  split at h
  · cases h
    exact .inl ⟨_, rfl, rfl⟩
  · next record hfind =>
    split at h
    · cases h
      exact .inl ⟨_, rfl, rfl⟩
    · next husable =>
      push Not at husable
      obtain ⟨hused, hexpires, -, huserAgent⟩ := husable
      split at h
      · cases h
        exact .inl ⟨_, rfl, rfl⟩
      · next provider hprovider =>
        cases h
        exact .inr ⟨record, provider.maxSessionAgeMinutes, List.mem_of_find?_eq_some hfind, by simpa using hused,
          hexpires, huserAgent, rfl, rfl⟩

theorem codeUser_cases {record : OidcLoginCode} {minutes : Nat} {context : RequestContext}
    (h : stmt env.auth auth i (.codeUser record minutes context) c = some (auth', q)) :
    auth' = auth ∧ ((∃ e, q = .done (.error e)) ∨ ∃ recheckAfter, q = .issueTokens record.userId context
      (some (⟨record.externalIdentityId, record.createdAt, recheckAfter⟩, record.providerId))) := by
  simp only [stmt, refused] at h
  split at h
  · cases h
    exact ⟨rfl, .inl ⟨_, rfl⟩⟩
  · cases h
    exact ⟨rfl, .inr ⟨_, rfl⟩⟩

theorem issueTokens_cases {userId : String} {context : RequestContext}
    {external : Option (ExternalSessionContext × String)}
    (h : stmt env.auth auth i (.issueTokens userId context external) c = some (auth', q)) :
    (∃ e, auth' = auth ∧ q = .done (.error e)) ∨ ∃ session a, q = .done (.ok a) ∧
      session = Session.login userId context (external.map Prod.fst) c.id (env.auth.hashRefreshToken c.token)
        (env.auth.refreshExpiryDate c.token c.now) ∧
      auth' = { auth with
        sessions := auth.sessions ++ [session], log := .loggedIn session (external.map Prod.snd) :: auth.log } := by
  simp only [stmt, refused] at h
  split at h
  · cases h
  · split at h
    · cases h
      exact .inl ⟨_, rfl, rfl⟩
    · split at h
      · cases h
        exact .inl ⟨_, rfl, rfl⟩
      · cases h
        exact .inr ⟨_, _, rfl, rfl, rfl⟩

end Statements

/-! ## One statement -/

/-- Points of which nothing has to be remembered. -/
def idle : OidcPoint → Bool
  | .consumeFind .. | .consumeExpired .. | .codeConsume .. | .done _ => true
  | _ => false

/-- The statements of a start before its transaction. -/
inductive Starting (env : Env) : OidcPoint → OidcPoint → Prop
  | unlink {identityId userId providerSlug} : Starting env (.unlinkFind identityId userId)
      (startAuthorization env providerSlug ⟨.unlink, some userId, some identityId⟩)
  | user {providerSlug userId purpose} : Starting env (.startUser providerSlug userId purpose)
      (.startProvider providerSlug purpose)
  | provider {purpose} (provider : IdentityProvider) :
    Starting env (.startProvider (env.slug provider.id) purpose) (.startTx provider purpose)

/-- What a callback goes on with after the token request. -/
inductive Purpose (g : Granted) : OidcPoint → Prop
  | login (hintent : g.request.intent = .login) : Purpose g (.identityFind g)
  | link {userId} (hintent : g.request.intent = .link) (huser : g.request.userId = some userId) : Purpose g
      (.linkTx g userId)
  | unlink {userId identityId} (hintent : g.request.intent = .unlink) (huser : g.request.userId = some userId)
    (htarget : g.request.unlinkTargetId = some identityId) : Purpose g (.unlinkTx g userId identityId)

section Exec

variable (env) (st : OidcStore) (i : Nat) (c : OidcChoice)

/-- One case for each kind of statement. -/
inductive OidcExec : OidcPoint → OidcStore → OidcPoint → Prop
  | moved {p q : OidcPoint} (hq : idle q = true) : OidcExec p st q
  | starting {p q : OidcPoint} (h : Starting env p q) : OidcExec p st q
  | session {p auth q} (h : stmt env.auth st.auth i p c.toChoice = some (auth, q)) :
    OidcExec (.auth p) (st.withAuth auth (removals p q)) (.auth q)
  | started {provider purpose codeVerifier nonce a}
    (hcodeVerifier : env.encrypt c.verifierIv c.start.codeVerifier = .ok codeVerifier)
    (hnonce : env.encrypt c.nonceIv c.start.nonce = .ok nonce) (hfresh : freshStart env st c = true) :
    OidcExec (.startTx provider purpose)
      { st with
        auth :=
          { st.auth with
            loginCodes := Rows.deleteMany (fun code => decide (code.expiresAt ≤ c.now) || code.usedAt.isSome)
              st.auth.loginCodes }
        requests := Rows.deleteMany (fun r => decide (r.expiresAt ≤ c.now)) st.requests ++
          [newRequest env provider purpose c codeVerifier nonce]
        log := .started i (newRequest env provider purpose c codeVerifier nonce) c.start :: st.log } (.done a)
  | found {callback state browserBinding request provider} (hmem : request ∈ st.requests)
    (hhash : request.stateHash = env.hashState state) (hprovider : st.auth.provider request.providerId = some provider)
    (hok : consumable env request provider callback browserBinding c.now = true) :
    OidcExec (.consumeFind callback state browserBinding) st (.consumeDelete
      ⟨request, provider, c.columns, callback.providerSlug, callback.url, state, browserBinding, callback.context, c.now⟩)
  | expired {requestId a} :
    OidcExec (.consumeExpired requestId) { st with requests := Rows.deleteMany (·.id == requestId) st.requests } (.done a)
  | consumed {k} (hrow : ∃ r ∈ st.requests, r.id = k.request.id ∧ k.time < r.expiresAt) :
    OidcExec (.consumeDelete k)
      { st with
        requests := Rows.deleteMany (fun r => r.id == k.request.id && decide (k.time < r.expiresAt)) st.requests
        log := .consumed i k :: st.log } (.grant k)
  | granted {k issuer profile q nonce codeVerifier claims} (hnonce : env.decrypt k.request.encryptedNonce = .ok nonce)
    (hcodeVerifier : env.decrypt k.request.encryptedCodeVerifier = .ok codeVerifier)
    (hgrant : env.authorizationCodeGrant k.provider.id k.request.redirectUri k.url
      ⟨k.state, nonce, codeVerifier, maxAge k.request.intent k.provider.maxSessionAgeMinutes⟩ c.answer =
        some (issuer, claims))
    (hprofile : mappedProfile env k.columns claims = some profile) (hq : Purpose ⟨k, issuer, profile⟩ q) :
    OidcExec (.grant k) st q
  | linked {g userId auth a} (h : linkTx st.auth g.request.providerId userId g.issuer g.profile.subject c.toChoice =
      some (auth, .done (.ok a))) :
    OidcExec (.linkTx g userId) (st.withAuth auth [.linked g]) (.done (.ok .linked))
  | unlinked {g userId identityId auth}
    (h : unlinkTx st.auth g.request.providerId userId identityId g.issuer g.profile.subject c.now = .ok auth) :
    OidcExec (.unlinkTx g userId identityId) (st.withAuth auth [.unlinked g]) (.done (.ok .unlinked))
  | provisioning {g p q}
    (h : p = .identityFind g ∧ q = .provisionRole g ∨ ∃ hash, p = .provisionRole g ∧ q = .provisionTx g hash) :
    OidcExec p st q
  | identified {g identity} (hmem : identity ∈ st.auth.identities) (hof : OfGrant g identity) :
    OidcExec (.identityFind g) st (.resolveGroups g identity)
  | provisioned {g hash auth a} (h : provisionTx env.toLowerCase st.auth g.request.providerId g.issuer g.profile hash
      c.toSignInChoice = some (auth, .auth (.done (.ok a)))) :
    OidcExec (.provisionTx g hash)
      (st.withAuth auth [.provisioned g ⟨c.id, g.request.providerId, c.userId, g.issuer, g.profile.subject⟩
        (auth.users.drop st.auth.users.length)])
      (.resolveGroups g ⟨c.id, g.request.providerId, c.userId, g.issuer, g.profile.subject⟩)
  | checked {g identity p q} (h : p = .resolveGroups g identity ∧ q = .synchronize g identity ∨
      p = .synchronize g identity ∧ q = .loginTx g identity) : OidcExec p st q
  | codeIssued {g identity code a} (hfresh : ¬Has OidcEvent.issuedHash st.log code.tokenHash)
    (hcode : code = ⟨env.auth.hashLoginCode c.token, env.auth.hashUserAgent g.context.userAgent, identity.userId,
      g.request.providerId, identity.id, c.now, c.now + 60 * 1000, none⟩) :
    OidcExec (.loginTx g identity)
      { st with
        auth := { st.auth with loginCodes := st.auth.loginCodes ++ [code] }
        log := .codeIssued g code :: st.log } (.done a)
  | notRedeemed {code context a} : OidcExec (.codeConsume code context) (st.withAuth st.auth []) (.auth (.done a))
  | redeemed {code context record minutes} (hmem : record ∈ st.auth.loginCodes) (hunused : record.usedAt = none)
    (htime : c.now < record.expiresAt) (huserAgent : record.userAgentHash = env.auth.hashUserAgent context.userAgent) :
    OidcExec (.codeConsume code context)
      (st.withAuth
        { st.auth with
          loginCodes := Rows.updateMany (fun row => row.tokenHash == record.tokenHash && row.usedAt.isNone)
            (fun row => { row with usedAt := some c.now }) st.auth.loginCodes }
        [.redeemed i record context c.now])
      (.redeemed record (.codeUser record minutes context))
  | exchanging {record p auth q} (h : stmt env.auth st.auth i p c.toChoice = some (auth, q)) :
    OidcExec (.redeemed record p)
      (st.withAuth auth
        ((auth.log.take (auth.log.length - st.auth.log.length)).filterMap Event.session |>.map (.signedIn record)))
      (.redeemed record q)

end Exec

variable {st st' : OidcStore} {i : Nat} {p q : OidcPoint} {c : OidcChoice}

theorem exec_of_fail {e : Failure} (h : fail st e = some (st', q)) : OidcExec env st i c p st' q := by
  cases h
  exact .moved rfl

theorem exec_of_loginFail {k : Consumption} {code : OidcLoginErrorCode} (h : loginFail st k code = some (st', q)) :
    OidcExec env st i c p st' q := exec_of_fail h

section Branches

attribute [local simp] oidcStmt

theorem exec_of_startTx {provider : IdentityProvider} {purpose : AuthorizationPurpose}
    (h : startTx env st i provider purpose c = some (st', q)) :
    OidcExec env st i c (.startTx provider purpose) st' q := by
  unfold startTx at h
  split at h
  · next codeVerifier nonce hcodeVerifier hnonce =>
    split at h
    · cases h
    · next hfresh =>
      split at h
      · exact exec_of_fail h
      · cases h
        exact .started hcodeVerifier hnonce (Bool.not_eq_false _ ▸ hfresh)
  · exact exec_of_fail h

theorem exec_of_consumeFind {callback : Callback} {state browserBinding : String}
    (h : consumeFind env st callback state browserBinding c = some (st', q)) :
    OidcExec env st i c (.consumeFind callback state browserBinding) st' q := by
  unfold consumeFind at h
  split at h
  · exact exec_of_fail h
  · next request hfind =>
    split at h
    · exact exec_of_fail h
    · next provider hprovider =>
      split at h
      · next hok =>
        cases h
        exact .found (List.mem_of_find?_eq_some hfind) (by simpa using List.find?_some hfind) hprovider hok
      · split at h
        · cases h
          exact .moved rfl
        · exact exec_of_fail h

theorem exec_of_grant {k : Consumption} (h : grant env st k c = some (st', q)) :
    OidcExec env st i c (.grant k) st' q := by
  unfold grant at h
  split at h
  · exact exec_of_loginFail h
  · split at h
    · next nonce codeVerifier hnonce hcodeVerifier =>
      split at h
      · exact exec_of_loginFail h
      · next issuer claims hgrant =>
        split at h
        · exact exec_of_loginFail h
        · next profile hprofile =>
          split at h
          · next hintent =>
            cases h
            exact .granted hnonce hcodeVerifier hgrant hprofile (.login hintent)
          · next userId _ hintent huser =>
            cases h
            exact .granted hnonce hcodeVerifier hgrant hprofile (.link hintent (Option.filter_eq_some_iff.mp huser).1)
          · next userId identityId hintent huser htarget =>
            cases h
            exact .granted hnonce hcodeVerifier hgrant hprofile
              (.unlink hintent (Option.filter_eq_some_iff.mp huser).1 (Option.filter_eq_some_iff.mp htarget).1)
          · exact exec_of_loginFail h
    · exact exec_of_loginFail h

theorem exec_of_identityFind {g : Granted} (h : oidcStmt env st i (.identityFind g) c = some (st', q)) :
    OidcExec env st i c (.identityFind g) st' q := by
  simp only [oidcStmt] at h
  split at h
  · split at h
    · cases h
      exact .provisioning (.inl ⟨rfl, rfl⟩)
    · exact exec_of_loginFail h
  · next identity hfind =>
    split at h
    · exact exec_of_loginFail h
    · cases h
      obtain ⟨⟨hprovider, hissuer⟩, hsubject⟩ :
          (identity.providerId = g.request.providerId ∧ identity.issuer = g.issuer) ∧
            identity.subject = g.profile.subject := by
        simpa using List.find?_some hfind
      exact .identified (List.mem_of_find?_eq_some hfind) ⟨hprovider, hissuer, hsubject⟩

theorem exec_of_unlinkFind {identityId userId : String}
    (h : oidcStmt env st i (.unlinkFind identityId userId) c = some (st', q)) :
    OidcExec env st i c (.unlinkFind identityId userId) st' q := by
  simp only [oidcStmt] at h
  split at h
  · exact exec_of_fail h
  · next identity hfind =>
    split at h
    · exact exec_of_fail h
    · split at h
      · exact exec_of_fail h
      · cases h
        obtain ⟨rfl, -⟩ : identity.id = identityId ∧ identity.userId = userId := by simpa using List.find?_some hfind
        exact .starting .unlink

theorem exec_of_startUser {providerSlug userId : String} {purpose : AuthorizationPurpose}
    (h : oidcStmt env st i (.startUser providerSlug userId purpose) c = some (st', q)) :
    OidcExec env st i c (.startUser providerSlug userId purpose) st' q := by
  simp only [oidcStmt] at h
  split at h
  · exact exec_of_fail h
  · cases h
    exact .starting .user

theorem exec_of_startProvider {providerSlug : String} {purpose : AuthorizationPurpose}
    (h : oidcStmt env st i (.startProvider providerSlug purpose) c = some (st', q)) :
    OidcExec env st i c (.startProvider providerSlug purpose) st' q := by
  simp only [oidcStmt] at h
  split at h
  · exact exec_of_fail h
  · next provider hfind =>
    obtain rfl : env.slug provider.id = providerSlug := by simpa using List.find?_some hfind
    split at h
    · exact exec_of_fail h
    · split at h
      · exact exec_of_fail h
      · cases h
        exact .starting (.provider provider)

theorem exec_of_consumeDelete {k : Consumption} (h : oidcStmt env st i (.consumeDelete k) c = some (st', q)) :
    OidcExec env st i c (.consumeDelete k) st' q := by
  simp only [oidcStmt] at h
  split at h
  · exact exec_of_fail h
  · next hone =>
    cases h
    obtain ⟨r, hr, hrow⟩ := List.countP_pos_iff.mp (Nat.lt_of_lt_of_eq Nat.one_pos (not_not.mp hone).symm)
    rw [Bool.and_eq_true, beq_iff_eq, decide_eq_true_eq] at hrow
    exact .consumed ⟨r, hr, hrow⟩

theorem exec_of_linkTx {g : Granted} {userId : String} (h : oidcStmt env st i (.linkTx g userId) c = some (st', q)) :
    OidcExec env st i c (.linkTx g userId) st' q := by
  obtain ⟨⟨auth, q'⟩, hlink, hq⟩ := Option.bind_eq_some_iff.mp h
  dsimp only at hq
  split at hq
  · next a =>
    cases hq
    exact .linked hlink
  · exact exec_of_loginFail hq
  · cases hq

theorem exec_of_unlinkTx {g : Granted} {userId identityId : String}
    (h : oidcStmt env st i (.unlinkTx g userId identityId) c = some (st', q)) :
    OidcExec env st i c (.unlinkTx g userId identityId) st' q := by
  simp only [oidcStmt] at h
  split at h
  · exact exec_of_loginFail h
  · next auth hunlink =>
    cases h
    exact .unlinked hunlink

theorem exec_of_provisionRole {g : Granted} (h : oidcStmt env st i (.provisionRole g) c = some (st', q)) :
    OidcExec env st i c (.provisionRole g) st' q := by
  simp only [oidcStmt] at h
  split at h
  · exact exec_of_loginFail h
  · cases h
    exact .provisioning (.inr ⟨_, rfl, rfl⟩)

theorem exec_of_provisionTx {g : Granted} {hash : String}
    (h : oidcStmt env st i (.provisionTx g hash) c = some (st', q)) :
    OidcExec env st i c (.provisionTx g hash) st' q := by
  obtain ⟨⟨auth, q'⟩, hprovision, hq⟩ := Option.bind_eq_some_iff.mp h
  dsimp only at hq
  split at hq
  · next a =>
    cases hq
    exact .provisioned hprovision
  · exact exec_of_loginFail hq
  · cases hq

theorem exec_of_loginTx {g : Granted} {identity : ExternalIdentity}
    (h : oidcStmt env st i (.loginTx g identity) c = some (st', q)) :
    OidcExec env st i c (.loginTx g identity) st' q := by
  simp only [oidcStmt] at h
  split at h
  · exact exec_of_loginFail h
  · split at h
    · cases h
    · next hfresh =>
      cases h
      exact .codeIssued (fun hhas => hfresh (List.contains_iff_mem.mpr (has_iff.mp hhas))) rfl

theorem exec_of_codeConsume {code : String} {context : RequestContext}
    (h : oidcStmt env st i (.codeConsume code context) c = some (st', q)) :
    OidcExec env st i c (.codeConsume code context) st' q := by
  obtain ⟨⟨auth, q'⟩, hstmt, hq⟩ := Option.map_eq_some_iff.mp h
  rcases codeConsume_cases hstmt with ⟨e, rfl, rfl⟩ | ⟨record, minutes, hmem, hunused, htime, huserAgent, rfl, rfl⟩
  · cases hq
    exact .notRedeemed
  · cases hq
    exact .redeemed hmem hunused htime huserAgent

/-- A check of the callback that goes on or ends the login. -/
theorem exec_of_check {g : Granted} {identity : ExternalIdentity} {code : OidcLoginErrorCode} {next : OidcPoint}
    (hmove : p = .resolveGroups g identity ∧ next = .synchronize g identity ∨
      p = .synchronize g identity ∧ next = .loginTx g identity)
    (h : (if c.accepted then some (st, next) else loginFail st g.toConsumption code) = some (st', q)) :
    OidcExec env st i c p st' q := by
  split at h
  · cases h
    exact .checked hmove
  · exact exec_of_loginFail h

end Branches

/-- **Every statement is one of the cases.** -/
theorem oidcExec_of_stmt (h : oidcStmt env st i p c = some (st', q)) : OidcExec env st i c p st' q := by
  cases p with
  | auth p =>
    obtain ⟨⟨auth, q⟩, hstmt, heq⟩ := Option.map_eq_some_iff.mp h
    cases heq
    exact .session hstmt
  | unlinkFind identityId userId => exact exec_of_unlinkFind h
  | startUser providerSlug userId purpose => exact exec_of_startUser h
  | startProvider providerSlug purpose => exact exec_of_startProvider h
  | startTx provider purpose => exact exec_of_startTx h
  | consumeFind callback state browserBinding => exact exec_of_consumeFind h
  | consumeExpired requestId =>
    cases h
    exact .expired
  | consumeDelete k => exact exec_of_consumeDelete h
  | grant k => exact exec_of_grant h
  | linkTx g userId => exact exec_of_linkTx h
  | unlinkTx g userId identityId => exact exec_of_unlinkTx h
  | identityFind g => exact exec_of_identityFind h
  | provisionRole g => exact exec_of_provisionRole h
  | provisionTx g hash => exact exec_of_provisionTx h
  | resolveGroups g identity => exact exec_of_check (.inl ⟨rfl, rfl⟩) h
  | synchronize g identity => exact exec_of_check (.inr ⟨rfl, rfl⟩) h
  | loginTx g identity => exact exec_of_loginTx h
  | codeConsume code context => exact exec_of_codeConsume h
  | redeemed record p =>
    obtain ⟨⟨auth, q⟩, hstmt, heq⟩ := Option.map_eq_some_iff.mp h
    cases heq
    exact .exchanging hstmt
  | done result => cases h

end AdWiki.Auth.Oidc
