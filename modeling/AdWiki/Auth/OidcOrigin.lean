import AdWiki.Auth.OidcStatements

/-!
# What is known of the rows and the events of a login

Every row and every event of the login at a provider has its origin on record: the start of an authorization, the callback
that consumed its request, the provider's answer, and the exchange of the code. The invariants of the four tables say so
(`OidcInv`), and a call in progress knows what it has consumed and that it has not used it yet (`Known`); a request or a
code is consumed by one call only, so no other call can use it.

* `oidcInv_exec`: every statement keeps the invariants, given what its call knows.
* `known_exec`, `known_later`: what a call knows goes on to its next point, and stays known while other calls go on.
-/

namespace AdWiki.Auth.Oidc

open Chronicle

variable {env : Env}

/-! ## What is on record -/

@[simp] def OidcEvent.consumedId : OidcEvent → Option String
  | .consumed _ k => some k.request.id
  | _ => none

/-- The request whose purpose is fulfilled. -/
@[simp] def OidcEvent.completedId : OidcEvent → Option String
  | .linked g | .unlinked g | .codeIssued g _ => some g.request.id
  | _ => none

@[simp] def OidcEvent.provisionedId : OidcEvent → Option String
  | .provisioned g _ _ => some g.request.id
  | _ => none

@[simp] def OidcEvent.redeemedHash : OidcEvent → Option String
  | .redeemed _ code _ _ => some code.tokenHash
  | _ => none

@[simp] def OidcEvent.signedInHash : OidcEvent → Option String
  | .signedIn code _ => some code.tokenHash
  | _ => none

@[simp] def OidcEvent.session : OidcEvent → Option Session
  | .signedIn _ session => some session
  | _ => none

/-- What the row of a start keeps of it. -/
structure StartOf (env : Env) (request : OidcAuthorizationRequest) (start : Start) : Prop where
  state : request.stateHash = env.hashState start.state
  browserBinding : request.browserBindingHash = env.hashBinding start.browserBinding
  nonce : env.decrypt request.encryptedNonce = .ok start.nonce
  codeVerifier : env.decrypt request.encryptedCodeVerifier = .ok start.codeVerifier
  redirectUri : request.redirectUri = env.oidcCallbackUrl (env.slug request.providerId)

/-- The callback comes in time, for an active provider, with the state and the cookie of the start. -/
structure Presented (env : Env) (k : Consumption) : Prop where
  state : env.hashState k.state = k.request.stateHash
  browserBinding : env.hashBinding k.browserBinding = k.request.browserBindingHash
  provider : k.provider.id = k.request.providerId
  active : k.provider.isActive = true
  slug : env.slug k.request.providerId = k.providerSlug
  time : k.time < k.request.expiresAt

/-- The provider answered the token request with the nonce and the verifier of the start, and with the maximal age that
its row has at the callback. -/
def Verified (env : Env) (g : Granted) (start : Start) : Prop :=
  ∃ answer claims, env.authorizationCodeGrant g.request.providerId g.request.redirectUri g.url
      ⟨g.state, start.nonce, start.codeVerifier, maxAge g.request.intent g.provider.maxSessionAgeMinutes⟩ answer =
        some (g.issuer, claims) ∧
    mappedProfile env g.columns claims = some g.profile

/-- **The origin of a grant**: its start, the callback that consumed the row of that start, and the provider's answer. -/
structure Origin (env : Env) (log : List OidcEvent) (g : Granted) (start : Start) : Prop where
  started : ∃ i, .started i g.request start ∈ log
  startOf : StartOf env g.request start
  consumed : ∃ i, .consumed i g.toConsumption ∈ log
  presented : Presented env g.toConsumption
  verified : Verified env g start

/-- The code of a login: for the user of the identity, for a minute, in the browser of the callback. -/
structure CodeFor (env : Env) (log : List Event) (g : Granted) (code : OidcLoginCode) : Prop where
  intent : g.request.intent = .login
  identity : ∃ identity, .linked identity ∈ log ∧ OfGrant g identity ∧ identity.id = code.externalIdentityId ∧
    identity.userId = code.userId
  userAgent : code.userAgentHash = env.auth.hashUserAgent g.context.userAgent
  expiresAt : code.expiresAt = code.createdAt + 60 * 1000

/-- The session that a code is exchanged for. -/
structure SessionOf (code : OidcLoginCode) (session : Session) : Prop where
  userId : session.userId = code.userId
  identity : session.externalIdentityId = some code.externalIdentityId
  verifiedAt : session.providerVerifiedAt = some code.createdAt

variable {log log' : List OidcEvent}

theorem Origin.mono (hlog : log <:+ log') {g : Granted} {start : Start} (h : Origin env log g start) :
    Origin env log' g start :=
  { h with
    started := h.started.imp fun _ hs => hlog.mem hs
    consumed := h.consumed.imp fun _ hc => hlog.mem hc }

theorem CodeFor.mono {log log' : List Event} (hlog : log <:+ log') {g : Granted} {code : OidcLoginCode}
    (h : CodeFor env log g code) : CodeFor env log' g code :=
  { h with identity := h.identity.imp fun _ hc => ⟨hlog.mem hc.1, hc.2⟩ }

variable {st st' : OidcStore} {i : Nat} {p q : OidcPoint} {c : OidcChoice}

/-! ## The invariant -/

/-- A request is used, and a code exchanged, by the call that consumed it. -/
structure Mine (i : Nat) (log : List OidcEvent) (e : OidcEvent) : Prop where
  completed : ∀ x, e.completedId = some x → ∃ k, .consumed i k ∈ log ∧ k.request.id = x
  provisioned : ∀ x, e.provisionedId = some x → ∃ k, .consumed i k ∈ log ∧ k.request.id = x
  signedIn : ∀ x, e.signedInHash = some x → ∃ code context time, .redeemed i code context time ∈ log ∧ code.tokenHash = x

/-- Every row comes from a start, and the row of a consumed start is gone, so it is consumed once. -/
structure RequestTable (env : Env) (st : OidcStore) : Prop where
  logged : ∀ r ∈ st.requests, ∃ i start, .started i r start ∈ st.log
  starts : ∀ i r start, .started i r start ∈ st.log → StartOf env r start
  ids : Once OidcEvent.startedId st.log
  consumed : ∀ i k, .consumed i k ∈ st.log → ∃ j start, .started j k.request start ∈ st.log
  presented : ∀ i k, .consumed i k ∈ st.log → Presented env k
  gone : ∀ i k, .consumed i k ∈ st.log → ∀ r ∈ st.requests, r.id ≠ k.request.id
  once : Once OidcEvent.consumedId st.log

/-- Every row comes from a login, and the rows of a redeemed code are used, so it is redeemed once. -/
structure CodeTable (env : Env) (st : OidcStore) : Prop where
  logged : ∀ row ∈ st.auth.loginCodes, ∃ g code, .codeIssued g code ∈ st.log ∧ row = { code with usedAt := row.usedAt }
  issued : ∀ g code, .codeIssued g code ∈ st.log →
    (∃ start, Origin env st.log g start) ∧ CodeFor env st.auth.log g code ∧ code.usedAt = none
  hashes : Once OidcEvent.issuedHash st.log
  redeemed : ∀ i code context time, .redeemed i code context time ∈ st.log → (∃ g, .codeIssued g code ∈ st.log) ∧
    time < code.expiresAt ∧ code.userAgentHash = env.auth.hashUserAgent context.userAgent
  used : ∀ i code context time, .redeemed i code context time ∈ st.log → ∀ row ∈ st.auth.loginCodes,
    row.tokenHash = code.tokenHash → row.usedAt.isSome = true
  once : Once OidcEvent.redeemedHash st.log

/-- The sessions of providers on the record of the session services are those of redeemed codes, one for each. -/
structure SessionTable (st : OidcStore) : Prop where
  signedIn : ∀ code session, .signedIn code session ∈ st.log →
    (∃ i context time, .redeemed i code context time ∈ st.log) ∧ SessionOf code session
  once : Once OidcEvent.signedInHash st.log
  sessions : st.auth.log.filterMap Event.ssoSession = st.log.filterMap OidcEvent.session

/-- Linked by a start of the user's own, or with a new user at a login. -/
def LinkedBy (env : Env) (log : List OidcEvent) (identity : ExternalIdentity) : Prop :=
  (∃ g start, .linked g ∈ log ∧ Origin env log g start ∧ g.request.intent = .link ∧ OfGrant g identity ∧
    g.request.userId = some identity.userId) ∨
  ∃ g start user, .provisioned g identity [user] ∈ log ∧ Origin env log g start ∧ g.request.intent = .login ∧
    OfGrant g identity ∧
    ProvisionedUser env.toLowerCase g.profile identity.userId user

/-- Unlinked by a start of the user's own that names the identity. -/
def UnlinkedBy (env : Env) (log : List OidcEvent) (identity : ExternalIdentity) : Prop :=
  ∃ g start, .unlinked g ∈ log ∧ Origin env log g start ∧ g.request.intent = .unlink ∧ OfGrant g identity ∧
    g.request.userId = some identity.userId ∧ g.request.unlinkTargetId = some identity.id

structure IdentityTable (env : Env) (setup : Setup) (st : OidcStore) : Prop where
  present : ∀ identity ∈ st.auth.identities, .linked identity ∈ st.auth.log
  ids : Once Event.identityId st.auth.log
  origin : ∀ identity, .linked identity ∈ st.auth.log → identity ∈ setup.identities ∨ LinkedBy env st.log identity
  gone : ∀ identity, .linked identity ∈ st.auth.log → identity ∈ st.auth.identities ∨ UnlinkedBy env st.log identity ∨
    .providerRemoved identity.providerId ∈ st.log

/-- What a request is used for happens once, and after it was consumed. -/
structure UsedOnce (key : OidcEvent → Option String) (log : List OidcEvent) : Prop where
  once : Once key log
  consumed : ∀ x, Has key log x → Has OidcEvent.consumedId log x

structure OidcInv (env : Env) (setup : Setup) (st : OidcStore) : Prop where
  requests : RequestTable env st
  codes : CodeTable env st
  sessions : SessionTable st
  identities : IdentityTable env setup st
  completed : UsedOnce OidcEvent.completedId st.log
  provisioned : UsedOnce OidcEvent.provisionedId st.log

/-- The call has consumed the request and not used it yet. -/
def Holds (i : Nat) (log : List OidcEvent) (k : Consumption) : Prop :=
  .consumed i k ∈ log ∧ ¬Has OidcEvent.completedId log k.request.id

/-- The grant of a call. -/
structure Grants (env : Env) (i : Nat) (log : List OidcEvent) (g : Granted)
    (intent : OidcAuthorizationIntent) : Prop where
  holds : Holds i log g.toConsumption
  origin : ∃ start, Origin env log g start
  intent : g.request.intent = intent

/-- The rest of an exchange: the code is consumed and has not led to a session yet. -/
def Exchanging (i : Nat) (log : List OidcEvent) (record : OidcLoginCode) : Point → Prop
  | .codeUser record' _ _ => record' = record ∧ (∃ context time, .redeemed i record context time ∈ log) ∧
    ¬Has OidcEvent.signedInHash log record.tokenHash
  | .issueTokens userId _ external => (userId = record.userId ∧ ∃ recheckAfter,
      external = some (⟨record.externalIdentityId, record.createdAt, recheckAfter⟩, record.providerId)) ∧
    (∃ context time, .redeemed i record context time ∈ log) ∧ ¬Has OidcEvent.signedInHash log record.tokenHash
  | .done _ => True
  | _ => False

/-- What a call in progress relies on. -/
def Known (env : Env) (i : Nat) (st : OidcStore) : OidcPoint → Prop
  | .auth p => sessionPoint p = true
  | .consumeDelete k => (∃ j start, .started j k.request start ∈ st.log) ∧ Presented env k
  | .grant k => Holds i st.log k ∧ ¬Has OidcEvent.provisionedId st.log k.request.id
  | .linkTx g userId => Grants env i st.log g .link ∧ g.request.userId = some userId
  | .unlinkTx g userId identityId => Grants env i st.log g .unlink ∧ g.request.userId = some userId ∧
    g.request.unlinkTargetId = some identityId
  | .identityFind g | .provisionRole g | .provisionTx g _ => Grants env i st.log g .login ∧
    ¬Has OidcEvent.provisionedId st.log g.request.id
  | .resolveGroups g identity | .synchronize g identity | .loginTx g identity => Grants env i st.log g .login ∧
    OfGrant g identity ∧ .linked identity ∈ st.auth.log
  | .redeemed record p => Exchanging i st.log record p
  | _ => True

/-! ## What is known stays known -/

/-- The events of one call never are about what another call holds. -/
structure Later (i : Nat) (st st' : OidcStore) : Prop where
  log : Grows (Mine i st.log) st.log st'.log
  auth : st.auth.log <:+ st'.auth.log

variable {j : Nat}

theorem not_has_of_later {key : OidcEvent → Option String} {k : Consumption} (hs : RequestTable env st) (hij : j ≠ i)
    (hlater : Later i st st')
    (hkey : ∀ e, Mine i st.log e → ∀ x, key e = some x → ∃ k, .consumed i k ∈ st.log ∧ k.request.id = x)
    (hk : .consumed j k ∈ st.log) (hnot : ¬Has key st.log k.request.id) : ¬Has key st'.log k.request.id := by
  rintro ⟨e, he, hek⟩
  obtain ⟨new, hlog, hnew⟩ := hlater.log
  rw [hlog] at he
  rcases List.mem_append.mp he with he | he
  · obtain ⟨k', hk', hid⟩ := hkey e (hnew e he) _ hek
    have heq := hs.once.eq hk hk' rfl (congrArg some hid)
    cases heq
    exact hij rfl
  · exact hnot ⟨e, he, hek⟩

theorem Holds.later {k : Consumption} (hs : RequestTable env st) (hij : j ≠ i) (hlater : Later i st st')
    (h : Holds j st.log k) : Holds j st'.log k :=
  ⟨hlater.log.suffix.mem h.1, not_has_of_later hs hij hlater (fun _ hm => hm.completed) h.1 h.2⟩

theorem Grants.later {g : Granted} {intent : OidcAuthorizationIntent} (hs : RequestTable env st) (hij : j ≠ i)
    (hlater : Later i st st') (h : Grants env j st.log g intent) : Grants env j st'.log g intent where
  holds := h.holds.later hs hij hlater
  origin := h.origin.imp fun _ ho => ho.mono hlater.log.suffix
  intent := h.intent

theorem exchanging_later {record : OidcLoginCode} {p : Point} (hs : CodeTable env st) (hij : j ≠ i)
    (hlater : Later i st st') (h : Exchanging j st.log record p) : Exchanging j st'.log record p := by
  have hrest :
    ((∃ context time, .redeemed j record context time ∈ st.log) ∧ ¬Has OidcEvent.signedInHash st.log record.tokenHash) →
      (∃ context time, .redeemed j record context time ∈ st'.log) ∧
        ¬Has OidcEvent.signedInHash st'.log record.tokenHash := by
    rintro ⟨⟨context, time, hredeemed⟩, hnot⟩
    refine ⟨⟨context, time, hlater.log.suffix.mem hredeemed⟩, ?_⟩
    rintro ⟨e, he, hek⟩
    obtain ⟨new, hlog, hnew⟩ := hlater.log
    rw [hlog] at he
    rcases List.mem_append.mp he with he | he
    · obtain ⟨code, context', time', hcode, hhash⟩ := (hnew e he).signedIn _ hek
      have heq := hs.once.eq hredeemed hcode rfl (congrArg some hhash)
      cases heq
      exact hij rfl
    · exact hnot ⟨e, he, hek⟩
  cases p with
  | codeUser record' minutes context => exact ⟨h.1, hrest h.2⟩
  | issueTokens userId context external => exact ⟨h.1, hrest h.2⟩
  | done result => trivial
  | _ => exact h.elim

theorem known_later (hrequests : RequestTable env st) (hcodes : CodeTable env st) (hij : j ≠ i) (hlater : Later i st st')
    (h : Known env j st p) : Known env j st' p := by
  cases p with
  | auth p => exact h
  | consumeDelete k => exact ⟨h.1.imp fun _ => Exists.imp fun _ hstart => hlater.log.suffix.mem hstart, h.2⟩
  | grant k =>
    exact ⟨Holds.later hrequests hij hlater h.1,
      not_has_of_later hrequests hij hlater (fun _ hm => hm.provisioned) h.1.1 h.2⟩
  | linkTx g userId => exact ⟨h.1.later hrequests hij hlater, h.2⟩
  | unlinkTx g userId identityId => exact ⟨h.1.later hrequests hij hlater, h.2⟩
  | identityFind g | provisionRole g | provisionTx g hash =>
    exact ⟨h.1.later hrequests hij hlater,
      not_has_of_later hrequests hij hlater (fun _ hm => hm.provisioned) h.1.holds.1 h.2⟩
  | resolveGroups g identity | synchronize g identity | loginTx g identity =>
    exact ⟨h.1.later hrequests hij hlater, h.2.1, hlater.auth.mem h.2.2⟩
  | redeemed record p => exact exchanging_later hcodes hij hlater h
  | _ => trivial

/-! ## Requests -/

theorem mem_removals {p q : Point} {e : OidcEvent} (h : e ∈ removals p q) :
    ∃ providerId, e = .providerRemoved providerId := by
  unfold removals at h
  split at h
  · exact ⟨_, List.mem_singleton.mp h⟩
  · cases h

theorem mem_requests_withAuth {auth : Store} {events : List OidcEvent} {r : OidcAuthorizationRequest}
    (h : r ∈ (st.withAuth auth events).requests) : r ∈ st.requests := (List.mem_filter.mp h).1

theorem RequestTable.frame (h : RequestTable env st)
    (hlog : Grows (fun e => e.startedId = none ∧ e.consumedId = none) st.log st'.log)
    (hrequests : ∀ r ∈ st'.requests, r ∈ st.requests) : RequestTable env st' := by
  have hstarted : ∀ {j r start}, .started j r start ∈ st'.log → .started j r start ∈ st.log :=
      fun he => hlog.mem he fun hnew => by
    cases hnew.1
  have hconsumed : ∀ {i k}, .consumed i k ∈ st'.log → .consumed i k ∈ st.log := fun he => hlog.mem he fun hnew => by
    cases hnew.2
  exact {
    logged := fun r hr => (h.logged r (hrequests r hr)).imp fun _ => Exists.imp fun _ hs => hlog.suffix.mem hs
    starts := fun j r start he => h.starts j r start (hstarted he)
    ids := h.ids.grows hlog fun _ hnew => hnew.1
    consumed := fun i k he => (h.consumed i k (hconsumed he)).imp fun _ => Exists.imp fun _ hs => hlog.suffix.mem hs
    presented := fun i k he => h.presented i k (hconsumed he)
    gone := fun i k he r hr => h.gone i k (hconsumed he) r (hrequests r hr)
    once := h.once.grows hlog fun _ hnew => hnew.2 }

/-- The row of a start keeps its values. -/
theorem startOf_newRequest {provider : IdentityProvider} {purpose : AuthorizationPurpose} {codeVerifier nonce : String}
    (hcodeVerifier : env.encrypt c.verifierIv c.start.codeVerifier = .ok codeVerifier)
    (hnonce : env.encrypt c.nonceIv c.start.nonce = .ok nonce) (hfresh : freshStart env st c = true) :
    StartOf env (newRequest env provider purpose c codeVerifier nonce) c.start := by
  simp only [freshStart, Bool.and_eq_true, decide_eq_true_eq, ne_eq] at hfresh
  obtain ⟨⟨⟨⟨-, hnonce'⟩, hverifier'⟩, hnonceIv⟩, hverifierIv⟩ := hfresh
  have hback : ∀ {iv : Secrets.Bytes} {text value : String}, env.encrypt iv text = .ok value → text ≠ "" →
      iv.length = Secrets.IV_BYTES → env.decrypt value = .ok text := by
    intro iv text value hvalue htext hiv
    unfold Env.encrypt Secrets.encrypt at hvalue
    cases hkey : Secrets.readKey Secrets.oidcSecrets env.environment with
    | error e => rw [hkey] at hvalue; cases hvalue
    | ok key =>
      rw [hkey] at hvalue
      cases hvalue
      exact (Secrets.decrypt_stored hkey hiv).trans (if_neg htext)
  exact ⟨rfl, rfl, hback hnonce hnonce' hnonceIv, hback hcodeVerifier hverifier' hverifierIv, rfl⟩

theorem not_started {id : String} (hfresh : freshStart env st c = true) (hid : id = c.id) :
    ¬Has OidcEvent.startedId st.log id := by
  simp only [freshStart, Bool.and_eq_true, Bool.not_eq_true'] at hfresh
  rw [has_iff, hid]
  simpa using hfresh.1.1.1.1.1

theorem RequestTable.started (h : RequestTable env st) {request : OidcAuthorizationRequest} {start : Start}
    (hnew : ¬Has OidcEvent.startedId st.log request.id) (hstart : StartOf env request start)
    (hlog : st'.log = .started i request start :: st.log)
    (hrequests : ∀ r ∈ st'.requests, r ∈ st.requests ∨ r = request) :
    RequestTable env st' := by
  have hmem : ∀ {r}, (∃ j start, .started j r start ∈ st.log) → ∃ j start, .started j r start ∈ st'.log :=
    Exists.imp fun _ => Exists.imp fun _ he => hlog ▸ List.mem_cons_of_mem _ he
  have hgrows : Grows (fun e => e.consumedId = none) st.log st'.log := hlog ▸ .cons rfl
  have hconsumed : ∀ {i k}, .consumed i k ∈ st'.log → .consumed i k ∈ st.log :=
    fun he => hgrows.mem he fun hnew => by cases hnew
  refine ⟨fun r hr => ?_, fun j r start' he => ?_, ?_, fun i k he => hmem (h.consumed i k (hconsumed he)),
    fun i k he => h.presented i k (hconsumed he), fun i k he r hr => ?_, ?_⟩
  · rcases hrequests r hr with hr | rfl
    · exact hmem (h.logged r hr)
    · exact ⟨i, start, hlog ▸ List.mem_cons_self⟩
  · rw [hlog] at he
    rcases List.mem_cons.mp he with he | he
    · cases he
      exact hstart
    · exact h.starts j r start' he
  · rw [hlog]
    exact h.ids.cons fun x hx => by cases hx; exact hnew
  · rcases hrequests r hr with hr | rfl
    · exact h.gone i k (hconsumed he) r hr
    · rintro hid
      obtain ⟨j, start', hs⟩ := h.consumed _ k (hconsumed he)
      exact hnew ⟨_, hs, congrArg some hid.symm⟩
  · exact h.once.grows hgrows fun _ hnew => hnew

theorem RequestTable.consume (h : RequestTable env st) {k : Consumption}
    (hstarted : ∃ j start, .started j k.request start ∈ st.log)
    (hpresented : Presented env k) (hrow : ∃ r ∈ st.requests, r.id = k.request.id)
    (hlog : st'.log = .consumed i k :: st.log)
    (hrequests : st'.requests =
      Rows.deleteMany (fun r => r.id == k.request.id && decide (k.time < r.expiresAt))
        st.requests) : RequestTable env st' := by
  have hsub : ∀ r ∈ st'.requests, r ∈ st.requests := fun r hr => (Rows.mem_deleteMany.mp (hrequests ▸ hr)).1
  have hmem : ∀ {e}, e ∈ st.log → e ∈ st'.log := fun he => hlog ▸ List.mem_cons_of_mem _ he
  have hcases : ∀ {j k'}, .consumed j k' ∈ st'.log → j = i ∧ k' = k ∨ .consumed j k' ∈ st.log := fun he =>
    (List.mem_cons.mp (hlog ▸ he)).imp_left fun heq => by
      cases heq
      exact ⟨rfl, rfl⟩
  have hgrows : Grows (fun e => e.startedId = none) st.log st'.log := hlog ▸ .cons rfl
  obtain ⟨r₀, hr₀, hid₀⟩ := hrow
  have hnew : ¬Has OidcEvent.consumedId st.log k.request.id := by
    rintro ⟨e, he, hkey⟩
    cases e with
    | consumed j k' => exact h.gone j k' he r₀ hr₀ (hid₀.trans (Option.some.inj hkey).symm)
    | _ => cases hkey
  refine ⟨fun r hr => (h.logged r (hsub r hr)).imp fun _ => Exists.imp fun _ => hmem, fun j r start he =>
    h.starts j r start ?_, ?_,
    fun j k' he => ?_,
    fun j k' he => ?_, fun j k' he r hr => ?_, ?_⟩
  · exact hgrows.mem he fun hnew => by cases hnew
  · exact h.ids.grows hgrows fun _ hnew => hnew
  · rcases hcases he with ⟨-, rfl⟩ | he
    · exact hstarted.imp fun _ => Exists.imp fun _ => hmem
    · exact (h.consumed j k' he).imp fun _ => Exists.imp fun _ => hmem
  · rcases hcases he with ⟨-, rfl⟩ | he
    · exact hpresented
    · exact h.presented j k' he
  · rcases hcases he with ⟨-, rfl⟩ | he
    · -- the row with this id is the one of the start, which is not expired
      rintro hid
      obtain ⟨j₀, start, hs⟩ := hstarted
      obtain ⟨j₁, start', hs'⟩ := h.logged r (hsub r hr)
      have heq := h.ids.eq hs hs' rfl (congrArg some hid)
      cases heq
      have hkept := (Rows.mem_deleteMany.mp (hrequests ▸ hr)).2
      simp [hpresented.time] at hkept
    · exact h.gone j k' he r (hsub r hr)
  · rw [hlog]
    exact h.once.cons fun x hx => by cases hx; exact hnew

theorem requestTable_exec (h : OidcExec env st i c p st' q) (hs : RequestTable env st) (hp : Known env i st p) :
    RequestTable env st' := by
  cases h with
  | moved | starting | found | granted | provisioning | identified | checked => exact hs
  | session hstmt =>
    refine hs.frame (.append fun e he => ?_) fun r => mem_requests_withAuth
    obtain ⟨provider, rfl⟩ := mem_removals he
    exact ⟨rfl, rfl⟩
  | started hcodeVerifier hnonce hfresh =>
    refine hs.started (not_started hfresh rfl) (startOf_newRequest hcodeVerifier hnonce hfresh) rfl fun r hr => ?_
    rcases List.mem_append.mp hr with hr | hr
    · exact .inl (Rows.mem_deleteMany.mp hr).1
    · exact .inr (List.mem_singleton.mp hr)
  | expired => exact hs.frame .refl fun r hr => (Rows.mem_deleteMany.mp hr).1
  | consumed hrow => exact hs.consume hp.1 hp.2 (hrow.imp fun _ hr => ⟨hr.1, hr.2.1⟩) rfl rfl
  | linked | unlinked | provisioned | redeemed => exact hs.frame (.cons ⟨rfl, rfl⟩) fun r => mem_requests_withAuth
  | codeIssued => exact hs.frame (.cons ⟨rfl, rfl⟩) fun r hr => hr
  | notRedeemed => exact hs.frame .refl fun r => mem_requests_withAuth
  | exchanging hstmt =>
    refine hs.frame (.append fun e he => ?_) fun r => mem_requests_withAuth
    obtain ⟨session, -, rfl⟩ := List.mem_map.mp he
    exact ⟨rfl, rfl⟩

/-! ## Codes -/

theorem CodeTable.frame (h : CodeTable env st)
    (hlog : Grows (fun e => e.issuedHash = none ∧ e.redeemedHash = none) st.log st'.log)
    (hauth : st.auth.log <:+ st'.auth.log)
    (hcodes : ∀ code ∈ st'.auth.loginCodes, code ∈ st.auth.loginCodes) : CodeTable env st' := by
  have hissued : ∀ {g code}, .codeIssued g code ∈ st'.log → .codeIssued g code ∈ st.log :=
      fun he => hlog.mem he fun hnew => by
    cases hnew.1
  have hredeemed : ∀ {i code context time}, .redeemed i code context time ∈ st'.log →
      .redeemed i code context time ∈ st.log :=
    fun he => hlog.mem he fun hnew => by cases hnew.2
  refine ⟨fun row hrow => ?_, fun g code he => ?_, h.hashes.grows hlog fun _ hnew => hnew.1,
    fun i code context time he => ?_,
    fun i code context time he row hrow => h.used i code context time (hredeemed he) row (hcodes row hrow),
    h.once.grows hlog fun _ hnew => hnew.2⟩
  · obtain ⟨g, code, he, hrow⟩ := h.logged row (hcodes row hrow)
    exact ⟨g, code, hlog.suffix.mem he, hrow⟩
  · obtain ⟨⟨start, horigin⟩, hcode, hunused⟩ := h.issued g code (hissued he)
    exact ⟨⟨start, horigin.mono hlog.suffix⟩, hcode.mono hauth, hunused⟩
  · obtain ⟨⟨g, he'⟩, hrest⟩ := h.redeemed i code context time (hredeemed he)
    exact ⟨⟨g, hlog.suffix.mem he'⟩, hrest⟩

theorem CodeTable.issue (h : CodeTable env st) {g : Granted} {code : OidcLoginCode}
    (hfresh : ¬Has OidcEvent.issuedHash st.log code.tokenHash) (horigin : ∃ start, Origin env st.log g start)
    (hcode : CodeFor env st.auth.log g code) (hunused : code.usedAt = none)
    (hlog : st'.log = .codeIssued g code :: st.log)
    (hauth : st'.auth.log = st.auth.log) (hcodes : st'.auth.loginCodes = st.auth.loginCodes ++ [code]) :
    CodeTable env st' := by
  have hsuffix : st.log <:+ st'.log := hlog ▸ List.suffix_cons _ _
  have hgrows : Grows (fun e => e.redeemedHash = none) st.log st'.log := hlog ▸ .cons rfl
  have hredeemed : ∀ {i code context time}, .redeemed i code context time ∈ st'.log →
      .redeemed i code context time ∈ st.log :=
    fun he => hgrows.mem he fun hnew => by cases hnew
  refine ⟨fun row hrow => ?_, fun g' code' he => ?_, ?_, fun i code' context time he => ?_,
    fun i code' context time he row hrow hhash => ?_, h.once.grows hgrows fun _ hnew => hnew⟩
  · rw [hcodes] at hrow
    rcases List.mem_append.mp hrow with hrow | hrow
    · obtain ⟨g', code', he, hrow⟩ := h.logged row hrow
      exact ⟨g', code', hsuffix.mem he, hrow⟩
    · obtain rfl := List.mem_singleton.mp hrow
      exact ⟨g, row, hlog ▸ List.mem_cons_self, rfl⟩
  · rw [hlog] at he
    rcases List.mem_cons.mp he with he | he
    · cases he
      exact ⟨horigin.imp fun _ ho => ho.mono hsuffix, hauth ▸ hcode, hunused⟩
    · obtain ⟨horigin', hcode', hunused'⟩ := h.issued g' code' he
      exact ⟨horigin'.imp fun _ ho => ho.mono hsuffix, hauth ▸ hcode', hunused'⟩
  · rw [hlog]
    exact h.hashes.cons fun x hx => by cases hx; exact hfresh
  · obtain ⟨⟨g', he'⟩, hrest⟩ := h.redeemed i code' context time (hredeemed he)
    exact ⟨⟨g', hsuffix.mem he'⟩, hrest⟩
  · rw [hcodes] at hrow
    rcases List.mem_append.mp hrow with hrow | hrow
    · exact h.used i code' context time (hredeemed he) row hrow hhash
    · obtain rfl := List.mem_singleton.mp hrow
      obtain ⟨⟨g', he'⟩, -⟩ := h.redeemed i code' context time (hredeemed he)
      exact absurd ⟨_, he', congrArg some hhash.symm⟩ hfresh

/-- No one has redeemed a code whose row is not used. -/
theorem CodeTable.not_redeemed (h : CodeTable env st) {record : OidcLoginCode} (hmem : record ∈ st.auth.loginCodes)
    (hunused : record.usedAt = none) : ¬Has OidcEvent.redeemedHash st.log record.tokenHash := by
  rintro ⟨e, he, hkey⟩
  cases e with
  | redeemed i code context time =>
    have hused := h.used i code context time he record hmem (Option.some.inj hkey).symm
    rw [hunused] at hused
    cases hused
  | _ => cases hkey

theorem CodeTable.redeem (h : CodeTable env st) {record : OidcLoginCode} {context : RequestContext} {now : Time}
    (hmem : record ∈ st.auth.loginCodes) (hunused : record.usedAt = none) (htime : now < record.expiresAt)
    (huserAgent : record.userAgentHash = env.auth.hashUserAgent context.userAgent)
    (hlog : st'.log = .redeemed i record context now :: st.log) (hauth : st'.auth.log = st.auth.log)
    (hcodes : st'.auth.loginCodes = Rows.updateMany (fun row => row.tokenHash == record.tokenHash && row.usedAt.isNone)
      (fun row => { row with usedAt := some now }) st.auth.loginCodes) : CodeTable env st' := by
  have hsuffix : st.log <:+ st'.log := hlog ▸ List.suffix_cons _ _
  have hgrows : Grows (fun e => e.issuedHash = none) st.log st'.log := hlog ▸ .cons rfl
  have hissued : ∀ {g code}, .codeIssued g code ∈ st'.log → .codeIssued g code ∈ st.log :=
      fun he => hgrows.mem he fun hnew => by
    cases hnew
  have hnew := h.not_redeemed hmem hunused
  refine ⟨fun row hrow => ?_, fun g code he => ?_, h.hashes.grows hgrows fun _ hnew => hnew,
    fun j code context' time he => ?_,
    fun j code context' time he row hrow hhash => ?_, ?_⟩
  · rw [hcodes] at hrow
    obtain ⟨row', hrow', rfl⟩ := Rows.mem_updateMany.mp hrow
    obtain ⟨g, code, he, heq⟩ := h.logged row' hrow'
    refine ⟨g, code, hsuffix.mem he, ?_⟩
    split
    · rw [heq]
    · exact heq
  · obtain ⟨horigin, hcode, hunused'⟩ := h.issued g code (hissued he)
    exact ⟨horigin.imp fun _ ho => ho.mono hsuffix, hauth ▸ hcode, hunused'⟩
  · rw [hlog] at he
    rcases List.mem_cons.mp he with he | he
    · cases he
      obtain ⟨g, code, he, heq⟩ := h.logged record hmem
      obtain ⟨-, -, hunused'⟩ := h.issued g code he
      have hsame : record = code := by rw [heq, hunused, ← hunused']
      exact ⟨⟨g, hsuffix.mem (hsame ▸ he)⟩, htime, huserAgent⟩
    · obtain ⟨⟨g, he'⟩, hrest⟩ := h.redeemed j code context' time he
      exact ⟨⟨g, hsuffix.mem he'⟩, hrest⟩
  · rw [hcodes] at hrow
    obtain ⟨row', hrow', rfl⟩ := Rows.mem_updateMany.mp hrow
    rw [hlog] at he
    by_cases hp : (row'.tokenHash == record.tokenHash && row'.usedAt.isNone) = true
    · rw [if_pos hp]
      rfl
    · rw [if_neg hp] at hhash ⊢
      rcases List.mem_cons.mp he with he | he
      · cases he
        simpa [hhash, Option.isSome_iff_ne_none] using hp
      · exact h.used j code context' time he row' hrow' hhash
  · rw [hlog]
    exact h.once.cons fun x hx => by cases hx; exact hnew

/-- The statements after a code was consumed leave the codes as they are. -/
theorem loginCodes_exchanging {log : List OidcEvent} {record : OidcLoginCode} {p q : Point} {auth : Store}
    (hp : Exchanging i log record p) (h : stmt env.auth st.auth i p c.toChoice = some (auth, q)) :
    auth.loginCodes = st.auth.loginCodes ∧ st.auth.log <:+ auth.log := by
  cases p with
  | codeUser record' minutes context =>
    obtain ⟨rfl, -⟩ := codeUser_cases h
    exact ⟨rfl, List.suffix_refl _⟩
  | issueTokens userId context external =>
    rcases issueTokens_cases h with ⟨e, rfl, -⟩ | ⟨session, a, -, -, rfl⟩
    · exact ⟨rfl, List.suffix_refl _⟩
    · exact ⟨rfl, List.suffix_cons _ _⟩
  | done result => cases h
  | _ => exact hp.elim

theorem codeTable_exec (h : OidcExec env st i c p st' q) (hs : CodeTable env st) (hp : Known env i st p) :
    CodeTable env st' := by
  cases h with
  | moved | starting | found | granted | provisioning | identified | checked => exact hs
  | session hstmt =>
    have hexec := exec_of_stmt hstmt
    refine hs.frame (.append fun e he => ?_) (log_suffix hexec) (sessionStep_of_exec hp hexec).codes
    obtain ⟨provider, rfl⟩ := mem_removals he
    exact ⟨rfl, rfl⟩
  | started => exact hs.frame (.cons ⟨rfl, rfl⟩) (List.suffix_refl _) fun code hcode => (Rows.mem_deleteMany.mp hcode).1
  | expired => exact hs.frame .refl (List.suffix_refl _) fun code hcode => hcode
  | consumed => exact hs.frame (.cons ⟨rfl, rfl⟩) (List.suffix_refl _) fun code hcode => hcode
  | linked hlink =>
    rcases linkTx_ok hlink with rfl | ⟨-, rfl⟩
    · exact hs.frame (.cons ⟨rfl, rfl⟩) (List.suffix_refl _) fun code hcode => hcode
    · exact hs.frame (.cons ⟨rfl, rfl⟩) (List.suffix_cons _ _) fun code hcode => hcode
  | unlinked hunlink =>
    obtain ⟨identity, -, -, -, -, -, -, hlog, -, hcodes⟩ := unlinkTx_found hunlink
    exact hs.frame (.cons ⟨rfl, rfl⟩) (hlog ▸ List.suffix_refl _) hcodes
  | provisioned hprovision =>
    obtain ⟨-, hcodes, -, hlog, -⟩ := provisionTx_ok hprovision
    exact hs.frame (.cons ⟨rfl, rfl⟩) (hlog ▸ List.suffix_cons _ _) fun code hcode => hcodes ▸ hcode
  | codeIssued hfresh hcode =>
    subst hcode
    obtain ⟨hgrants, hof, hlinked⟩ := hp
    exact hs.issue hfresh hgrants.origin ⟨hgrants.intent, ⟨_, hlinked, hof, rfl, rfl⟩, rfl, rfl⟩ rfl rfl rfl rfl
  | notRedeemed => exact hs.frame .refl (List.suffix_refl _) fun code hcode => hcode
  | redeemed hmem hunused htime huserAgent => exact hs.redeem hmem hunused htime huserAgent rfl rfl rfl
  | exchanging hstmt =>
    obtain ⟨hcodes, hauth⟩ := loginCodes_exchanging hp hstmt
    refine hs.frame (.append fun e he => ?_) hauth fun code hcode => hcodes ▸ hcode
    obtain ⟨session, -, rfl⟩ := List.mem_map.mp he
    exact ⟨rfl, rfl⟩

/-! ## Sessions -/

/-- What the last statements of an exchange record: nothing, or the session of the code. -/
theorem record_exchanging {log : List OidcEvent} {record : OidcLoginCode} {p q : Point} {auth : Store}
    (hp : Exchanging i log record p) (h : stmt env.auth st.auth i p c.toChoice = some (auth, q)) :
    (auth.log = st.auth.log ∨ ∃ session, auth.log = .loggedIn session (some record.providerId) :: st.auth.log ∧
      SessionOf record session) ∧
    auth.identities = st.auth.identities ∧ (Exchanging i log record q ∨ ∃ a, q = .done a) := by
  cases p with
  | codeUser record' minutes context =>
    obtain ⟨rfl, ⟨e, rfl⟩ | ⟨recheckAfter, rfl⟩⟩ := codeUser_cases h
    · exact ⟨.inl rfl, rfl, .inr ⟨_, rfl⟩⟩
    · obtain ⟨rfl, hrest⟩ := hp
      exact ⟨.inl rfl, rfl, .inl ⟨⟨rfl, recheckAfter, rfl⟩, hrest⟩⟩
  | issueTokens userId context external =>
    obtain ⟨⟨rfl, recheckAfter, rfl⟩, -⟩ := hp
    rcases issueTokens_cases h with ⟨e, rfl, rfl⟩ | ⟨session, a, rfl, rfl, rfl⟩
    · exact ⟨.inl rfl, rfl, .inr ⟨_, rfl⟩⟩
    · exact ⟨.inr ⟨_, rfl, rfl, rfl, rfl⟩, rfl, .inr ⟨_, rfl⟩⟩
  | done result => cases h
  | _ => exact hp.elim

/-- The record of the exchange, from that of the session services. -/
def recorded (st : OidcStore) (auth : Store) (record : OidcLoginCode) : List OidcEvent :=
  (auth.log.take (auth.log.length - st.auth.log.length)).filterMap Event.session |>.map (.signedIn record)

theorem recorded_same {auth : Store} {record : OidcLoginCode} (h : auth.log = st.auth.log) :
    recorded st auth record = [] := by
  simp [recorded, h]

theorem recorded_session {auth : Store} {record : OidcLoginCode} {session : Session} {providerId : Option String}
    (h : auth.log = .loggedIn session providerId :: st.auth.log) :
    recorded st auth record = [.signedIn record session] := by
  simp [recorded, h, Event.session]

theorem SessionTable.frame (h : SessionTable st)
    (hlog : Grows (fun e => e.signedInHash = none ∧ e.session = none) st.log st'.log)
    (hauth : Grows (fun e => e.ssoSession = none) st.auth.log st'.auth.log) : SessionTable st' where
  signedIn code session he := by
    obtain ⟨⟨i, context, time, hredeemed⟩, hof⟩ := h.signedIn code session (hlog.mem he fun hnew => by cases hnew.1)
    exact ⟨⟨i, context, time, hlog.suffix.mem hredeemed⟩, hof⟩
  once := h.once.grows hlog fun _ hnew => hnew.1
  sessions := by rw [hlog.filterMap fun _ hnew => hnew.2, hauth.filterMap fun _ hnew => hnew, h.sessions]

theorem SessionTable.signIn (h : SessionTable st) {record : OidcLoginCode} {session : Session} {providerId : String}
    (hredeemed : ∃ i context time, .redeemed i record context time ∈ st.log)
    (hnew : ¬Has OidcEvent.signedInHash st.log record.tokenHash) (hof : SessionOf record session)
    (hlog : st'.log = .signedIn record session :: st.log)
    (hauth : st'.auth.log = .loggedIn session (some providerId) :: st.auth.log) : SessionTable st' where
  signedIn code session' he := by
    rw [hlog] at he ⊢
    rcases List.mem_cons.mp he with he | he
    · cases he
      obtain ⟨i, context, time, hredeemed⟩ := hredeemed
      exact ⟨⟨i, context, time, List.mem_cons_of_mem _ hredeemed⟩, hof⟩
    · obtain ⟨⟨i, context, time, hredeemed⟩, hof⟩ := h.signedIn code session' he
      exact ⟨⟨i, context, time, List.mem_cons_of_mem _ hredeemed⟩, hof⟩
  once := by
    rw [hlog]
    exact h.once.cons fun x hx => by cases hx; exact hnew
  sessions := by
    rw [hlog, hauth]
    exact congrArg (session :: ·) h.sessions

/-- The rest of an exchange has consumed its code. -/
theorem exchanging_redeemed {log : List OidcEvent} {record : OidcLoginCode} {p : Point} (hp : Exchanging i log record p) :
    (∃ context time, .redeemed i record context time ∈ log) ∧ ¬Has OidcEvent.signedInHash log record.tokenHash ∨
      ∃ a, p = .done a := by
  cases p with
  | codeUser record' minutes context => exact .inl hp.2
  | issueTokens userId context external => exact .inl hp.2
  | done result => exact .inr ⟨_, rfl⟩
  | _ => exact hp.elim

theorem sessionTable_exec (h : OidcExec env st i c p st' q) (hs : SessionTable st) (hp : Known env i st p) :
    SessionTable st' := by
  cases h with
  | moved | starting | found | granted | provisioning | identified | checked => exact hs
  | session hstmt =>
    refine hs.frame (.append fun e he => ?_) ((sessionStep_of_exec hp (exec_of_stmt hstmt)).log.imp fun _ hnew => hnew.1)
    obtain ⟨provider, rfl⟩ := mem_removals he
    exact ⟨rfl, rfl⟩
  | started | consumed | codeIssued | redeemed => exact hs.frame (.cons ⟨rfl, rfl⟩) .refl
  | expired | notRedeemed => exact hs.frame .refl .refl
  | linked hlink =>
    rcases linkTx_ok hlink with rfl | ⟨-, rfl⟩
    · exact hs.frame (.cons ⟨rfl, rfl⟩) .refl
    · exact hs.frame (.cons ⟨rfl, rfl⟩) (.cons rfl)
  | unlinked hunlink =>
    obtain ⟨identity, -, -, -, -, -, -, hlog, -⟩ := unlinkTx_found hunlink
    exact hs.frame (.cons ⟨rfl, rfl⟩) (hlog ▸ .refl)
  | provisioned hprovision =>
    obtain ⟨-, -, -, hlog, -⟩ := provisionTx_ok hprovision
    exact hs.frame (.cons ⟨rfl, rfl⟩) (hlog ▸ .cons rfl)
  | exchanging hstmt =>
    rename_i record p auth q
    rcases (record_exchanging hp hstmt).1 with hlog | ⟨session, hlog, hof⟩
    · refine hs.frame ?_ (hlog ▸ .refl)
      exact .append fun e he => by
        have hnone : e ∈ recorded st auth record := he
        rw [recorded_same hlog] at hnone
        cases hnone
    · rcases exchanging_redeemed hp with ⟨hredeemed, hnew⟩ | ⟨a, rfl⟩
      · refine hs.signIn ⟨i, hredeemed⟩ hnew hof ?_ hlog
        exact congrArg (· ++ st.log) (recorded_session hlog)
      · cases hstmt

/-! ## Identities -/

theorem Origin.linkedBy_mono (hlog : st.log <:+ st'.log) {identity : ExternalIdentity}
    (h : LinkedBy env st.log identity) :
    LinkedBy env st'.log identity := by
  rcases h with ⟨g, start, he, horigin, hrest⟩ | ⟨g, start, user, he, horigin, hrest⟩
  · exact .inl ⟨g, start, hlog.mem he, horigin.mono hlog, hrest⟩
  · exact .inr ⟨g, start, user, hlog.mem he, horigin.mono hlog, hrest⟩

theorem Origin.unlinkedBy_mono (hlog : st.log <:+ st'.log) {identity : ExternalIdentity}
    (h : UnlinkedBy env st.log identity) :
    UnlinkedBy env st'.log identity := by
  obtain ⟨g, start, he, horigin, hrest⟩ := h
  exact ⟨g, start, hlog.mem he, horigin.mono hlog, hrest⟩

variable {setup : Setup}

/-- The rows that go have a reason on record. -/
theorem IdentityTable.frame (h : IdentityTable env setup st) (hlog : st.log <:+ st'.log)
    (hauth : Grows (fun e => e.linkedIdentity = none) st.auth.log st'.auth.log)
    (hidentities : ∀ identity ∈ st'.auth.identities, identity ∈ st.auth.identities)
    (hgone : ∀ identity ∈ st.auth.identities, identity ∈ st'.auth.identities ∨ UnlinkedBy env st'.log identity ∨
      .providerRemoved identity.providerId ∈ st'.log) : IdentityTable env setup st' where
  present identity hmem := hauth.suffix.mem (h.present identity (hidentities identity hmem))
  ids := h.ids.grows hauth fun e hnew => by cases e <;> first | rfl | cases hnew
  origin identity he := (h.origin identity (hauth.mem he fun hnew => by cases hnew)).imp_right (Origin.linkedBy_mono hlog)
  gone identity he := by
    rcases h.gone identity (hauth.mem he fun hnew => by cases hnew) with hmem | hunlinked | hremoved
    · exact hgone identity hmem
    · exact .inr (.inl (Origin.unlinkedBy_mono hlog hunlinked))
    · exact .inr (.inr (hlog.mem hremoved))

theorem IdentityTable.link (h : IdentityTable env setup st) {identity : ExternalIdentity}
    (hnew : identity.id ∉ st.auth.log.filterMap Event.identityId) (hlinked : LinkedBy env st'.log identity)
    (hlog : st.log <:+ st'.log) (hauth : st'.auth.log = .linked identity :: st.auth.log)
    (hidentities : st'.auth.identities = st.auth.identities ++ [identity]) : IdentityTable env setup st' where
  present identity' hmem := by
    rw [hidentities] at hmem
    rw [hauth]
    rcases List.mem_append.mp hmem with hmem | hmem
    · exact List.mem_cons_of_mem _ (h.present identity' hmem)
    · rw [List.mem_singleton.mp hmem]
      exact List.mem_cons_self
  ids := by
    rw [hauth]
    exact h.ids.cons fun x hx hhas => by
      cases hx
      exact hnew (has_iff.mp hhas)
  origin identity' he := by
    rw [hauth] at he
    rcases List.mem_cons.mp he with he | he
    · cases he
      exact .inr hlinked
    · exact (h.origin identity' he).imp_right (Origin.linkedBy_mono hlog)
  gone identity' he := by
    rw [hauth] at he
    rw [hidentities]
    rcases List.mem_cons.mp he with he | he
    · cases he
      exact .inl (List.mem_append_right _ (List.mem_singleton_self _))
    · rcases h.gone identity' he with hmem | hunlinked | hremoved
      · exact .inl (List.mem_append_left _ hmem)
      · exact .inr (.inl (Origin.unlinkedBy_mono hlog hunlinked))
      · exact .inr (.inr (hlog.mem hremoved))

/-- Identities of one id are one. -/
theorem IdentityTable.eq (h : IdentityTable env setup st) {identity identity' : ExternalIdentity}
    (hmem : identity ∈ st.auth.identities) (hmem' : identity' ∈ st.auth.identities) (hid : identity.id = identity'.id) :
    identity = identity' := by
  have heq := h.ids.eq (h.present identity hmem) (h.present identity' hmem') rfl (congrArg some hid.symm)
  cases heq
  rfl

theorem identityTable_exec (h : OidcExec env st i c p st' q) (hs : IdentityTable env setup st) (hp : Known env i st p) :
    IdentityTable env setup st' := by
  cases h with
  | moved | starting | found | granted | provisioning | identified | checked => exact hs
  | session hstmt =>
    rename_i p auth q
    have hstep := sessionStep_of_exec hp (exec_of_stmt hstmt)
    have hlog : st.log <:+ removals p q ++ st.log := List.suffix_append _ _
    rcases hstep.identities with hsame | ⟨provider, a, rfl, rfl, hdeleted⟩
    · exact hs.frame hlog (hstep.log.imp fun _ hnew => hnew.2) (fun _ hmem => hsame ▸ hmem) fun _ hmem =>
        .inl (hsame ▸ hmem)
    · refine hs.frame hlog (hstep.log.imp fun _ hnew => hnew.2) (fun identity hmem => ?_) fun identity hmem => ?_
      · exact (Rows.mem_deleteMany.mp (hdeleted ▸ hmem)).1
      · by_cases hprovider : identity.providerId = provider.id
        · exact .inr (.inr (hprovider ▸ List.mem_cons_self))
        · exact .inl (hdeleted ▸ Rows.mem_deleteMany.mpr ⟨hmem, by simpa using hprovider⟩)
  | started | consumed | codeIssued | redeemed =>
    exact hs.frame (List.suffix_cons _ _) .refl (fun _ hmem => hmem) fun _ hmem => .inl hmem
  | expired | notRedeemed => exact hs.frame (List.suffix_refl _) .refl (fun _ hmem => hmem) fun _ hmem => .inl hmem
  | linked hlink =>
    rcases linkTx_ok hlink with rfl | ⟨hnew, rfl⟩
    · exact hs.frame (List.suffix_cons _ _) .refl (fun _ hmem => hmem) fun _ hmem => .inl hmem
    · obtain ⟨⟨-, ⟨start, horigin⟩, hintent⟩, huser⟩ := hp
      exact hs.link hnew
        (.inl ⟨_, start, List.mem_cons_self, horigin.mono (List.suffix_cons _ _), hintent, ⟨rfl, rfl, rfl⟩, huser⟩)
        (List.suffix_cons _ _) rfl rfl
  | unlinked hunlink =>
    obtain ⟨⟨-, ⟨start, horigin⟩, hintent⟩, huser, htarget⟩ := hp
    obtain ⟨identity, hfound, hid, hown, hprovider, hissuer, hsubject, hlog, hdeleted, -⟩ := unlinkTx_found hunlink
    refine hs.frame (List.suffix_cons _ _) (hlog ▸ .refl) (fun _ hmem => (Rows.mem_deleteMany.mp (hdeleted ▸ hmem)).1)
      fun identity' hmem => ?_
    by_cases hsame : identity'.id = identity.id
    · obtain rfl := hs.eq hmem hfound hsame
      exact .inr (.inl ⟨_, start, List.mem_cons_self, horigin.mono (List.suffix_cons _ _), hintent,
        ⟨hprovider, hissuer, hsubject⟩, by rw [huser, hown], by rw [htarget, hid]⟩)
    · exact .inl (hdeleted ▸ Rows.mem_deleteMany.mpr ⟨hmem, by simpa [← hid] using hsame⟩)
  | provisioned hprovision =>
    obtain ⟨⟨-, ⟨start, horigin⟩, hintent⟩, -⟩ := hp
    obtain ⟨hnew, -, hidentities, hlog, user, hcreated, huser⟩ := provisionTx_ok hprovision
    refine hs.link hnew (.inr ⟨_, start, user, ?_, horigin.mono (List.suffix_cons _ _), hintent, ⟨rfl, rfl, rfl⟩, huser⟩)
      (List.suffix_cons _ _) hlog hidentities
    rw [hcreated]
    exact List.mem_cons_self
  | exchanging hstmt =>
    obtain ⟨hlog, hidentities, -⟩ := record_exchanging hp hstmt
    refine hs.frame (List.suffix_append _ _) ?_ (fun _ hmem => hidentities ▸ hmem) fun _ hmem => .inl (hidentities ▸ hmem)
    rcases hlog with hlog | ⟨session, hlog, -⟩
    · exact hlog ▸ .refl
    · exact hlog ▸ .cons rfl

/-! ## Every statement keeps the invariant -/

theorem mine_of_grants {g : Granted} {intent : OidcAuthorizationIntent} (h : Grants env i st.log g intent) :
    ∀ x, some g.request.id = some x → ∃ k, .consumed i k ∈ st.log ∧ k.request.id = x :=
  fun _ hx => ⟨g.toConsumption, h.holds.1, Option.some.inj hx⟩

theorem forall_of_none {o : Option String} {P : String → Prop} (h : o = none) : ∀ x, o = some x → P x := by
  rintro x rfl
  cases h

theorem Mine.of_none {e : OidcEvent} (hcompleted : e.completedId = none) (hprovisioned : e.provisionedId = none)
    (hsignedIn : e.signedInHash = none) : Mine i log e :=
  ⟨forall_of_none hcompleted, forall_of_none hprovisioned, forall_of_none hsignedIn⟩

theorem later_exec (h : OidcExec env st i c p st' q) (hp : Known env i st p) : Later i st st' := by
  cases h with
  | moved | starting | found | granted | provisioning | identified | checked => exact ⟨.refl, List.suffix_refl _⟩
  | session hstmt =>
    refine ⟨.append fun e he => ?_, log_suffix (exec_of_stmt hstmt)⟩
    obtain ⟨provider, rfl⟩ := mem_removals he
    exact .of_none rfl rfl rfl
  | started | consumed => exact ⟨.cons (.of_none rfl rfl rfl), List.suffix_refl _⟩
  | expired | notRedeemed => exact ⟨.refl, List.suffix_refl _⟩
  | linked hlink =>
    refine ⟨.cons ⟨mine_of_grants hp.1, forall_of_none rfl, forall_of_none rfl⟩, ?_⟩
    rcases linkTx_ok hlink with rfl | ⟨-, rfl⟩
    · exact List.suffix_refl _
    · exact List.suffix_cons _ _
  | unlinked hunlink =>
    obtain ⟨identity, -, -, -, -, -, -, hlog, -⟩ := unlinkTx_found hunlink
    exact ⟨.cons ⟨mine_of_grants hp.1, forall_of_none rfl, forall_of_none rfl⟩, hlog ▸ List.suffix_refl _⟩
  | provisioned hprovision =>
    obtain ⟨-, -, -, hlog, -⟩ := provisionTx_ok hprovision
    exact ⟨.cons ⟨forall_of_none rfl, mine_of_grants hp.1, forall_of_none rfl⟩, hlog ▸ List.suffix_cons _ _⟩
  | codeIssued =>
    exact ⟨.cons ⟨mine_of_grants hp.1, forall_of_none rfl, forall_of_none rfl⟩, List.suffix_refl _⟩
  | redeemed => exact ⟨.cons (.of_none rfl rfl rfl), List.suffix_refl _⟩
  | exchanging hstmt =>
    refine ⟨.append fun e he => ?_, (loginCodes_exchanging hp hstmt).2⟩
    obtain ⟨session, -, rfl⟩ := List.mem_map.mp he
    rcases exchanging_redeemed hp with ⟨⟨context, time, hredeemed⟩, -⟩ | ⟨a, rfl⟩
    · exact ⟨forall_of_none rfl, forall_of_none rfl, fun x hx => ⟨_, context, time, hredeemed, Option.some.inj hx⟩⟩
    · cases hstmt

theorem UsedOnce.frame {key : OidcEvent → Option String} (h : UsedOnce key st.log)
    (hlog : Grows (fun e => key e = none) st.log st'.log) : UsedOnce key st'.log where
  once := h.once.grows hlog fun _ hnew => hnew
  consumed x hx := (h.consumed x (hlog.has (fun _ hnew => hnew) hx)).mono hlog.suffix

theorem UsedOnce.use {key : OidcEvent → Option String} {log : List OidcEvent} (h : UsedOnce key log) {e : OidcEvent}
    {k : Consumption} (hkey : key e = some k.request.id) (hconsumed : .consumed i k ∈ log)
    (hnew : ¬Has key log k.request.id) :
    UsedOnce key (e :: log) where
  once := h.once.cons fun x hx => by
    obtain rfl := Option.some.inj (hkey.symm.trans hx)
    exact hnew
  consumed x hx := by
    obtain ⟨e', he', hx⟩ := hx
    rcases List.mem_cons.mp he' with rfl | he'
    · obtain rfl := Option.some.inj (hkey.symm.trans hx)
      exact ⟨_, List.mem_cons_of_mem _ hconsumed, rfl⟩
    · exact (h.consumed x ⟨e', he', hx⟩).mono (List.suffix_cons _ _)

theorem completed_exec (h : OidcExec env st i c p st' q) (hs : UsedOnce OidcEvent.completedId st.log)
    (hp : Known env i st p) :
    UsedOnce OidcEvent.completedId st'.log := by
  cases h with
  | moved | starting | found | granted | provisioning | identified | checked | expired | notRedeemed => exact hs
  | session =>
    refine hs.frame (.append fun e he => ?_)
    obtain ⟨provider, rfl⟩ := mem_removals he
    rfl
  | started | consumed | provisioned | redeemed => exact hs.frame (.cons rfl)
  | linked | unlinked | codeIssued => exact hs.use rfl hp.1.holds.1 hp.1.holds.2
  | exchanging =>
    refine hs.frame (.append fun e he => ?_)
    obtain ⟨session, -, rfl⟩ := List.mem_map.mp he
    rfl

theorem provisioned_exec (h : OidcExec env st i c p st' q) (hs : UsedOnce OidcEvent.provisionedId st.log)
    (hp : Known env i st p) :
    UsedOnce OidcEvent.provisionedId st'.log := by
  cases h with
  | moved | starting | found | granted | provisioning | identified | checked | expired | notRedeemed => exact hs
  | session =>
    refine hs.frame (.append fun e he => ?_)
    obtain ⟨provider, rfl⟩ := mem_removals he
    rfl
  | started | consumed | linked | unlinked | codeIssued | redeemed => exact hs.frame (.cons rfl)
  | provisioned => exact hs.use rfl hp.1.holds.1 hp.2
  | exchanging =>
    refine hs.frame (.append fun e he => ?_)
    obtain ⟨session, -, rfl⟩ := List.mem_map.mp he
    rfl

theorem oidcInv_exec (h : OidcExec env st i c p st' q) (hs : OidcInv env setup st) (hp : Known env i st p) :
    OidcInv env setup st' where
  requests := requestTable_exec h hs.requests hp
  codes := codeTable_exec h hs.codes hp
  sessions := sessionTable_exec h hs.sessions hp
  identities := identityTable_exec h hs.identities hp
  completed := completed_exec h hs.completed hp
  provisioned := provisioned_exec h hs.provisioned hp

/-! ## What a call goes on with -/

theorem known_idle (hq : idle q = true) : Known env i st q := by
  cases q <;> trivial

theorem known_startAuthorization (providerSlug : String) (purpose : AuthorizationPurpose) :
    Known env i st (startAuthorization env providerSlug purpose) := by
  unfold startAuthorization
  split
  · trivial
  · split <;> trivial

theorem known_starting (h : Starting env p q) : Known env i st q := by
  cases h with
  | unlink => exact known_startAuthorization _ _
  | user | provider => trivial

/-- A row that is found comes from a start, and the callback presents it. -/
theorem known_found (hs : RequestTable env st) {callback : Callback} {state browserBinding : String}
    {request : OidcAuthorizationRequest} {provider : IdentityProvider} (hmem : request ∈ st.requests)
    (hhash : request.stateHash = env.hashState state) (hprovider : st.auth.provider request.providerId = some provider)
    (hok : consumable env request provider callback browserBinding c.now = true) :
    Known env i st (.consumeDelete
      ⟨request, provider, c.columns, callback.providerSlug, callback.url, state, browserBinding,
        callback.context, c.now⟩) := by
  simp only [consumable, Bool.and_eq_true, decide_eq_true_eq, beq_iff_eq] at hok
  obtain ⟨⟨⟨htime, hslug⟩, hactive⟩, hbinding⟩ := hok
  have hid : provider.id = request.providerId := by simpa using List.find?_some hprovider
  exact ⟨hs.logged request hmem, hhash.symm, hbinding.symm, hid, hactive, hid ▸ hslug, htime⟩

/-- The provider's answer is to the nonce and the verifier of the start. -/
theorem grants_of_grant (hs : RequestTable env st) {k : Consumption} {issuer nonce codeVerifier answer : String}
    {profile : MappedOidcProfile} {claims : ClaimSet} {intent : OidcAuthorizationIntent} (hholds : Holds i st.log k)
    (hnonce : env.decrypt k.request.encryptedNonce = .ok nonce)
    (hcodeVerifier : env.decrypt k.request.encryptedCodeVerifier = .ok codeVerifier)
    (hgrant : env.authorizationCodeGrant k.provider.id k.request.redirectUri k.url
      ⟨k.state, nonce, codeVerifier, maxAge k.request.intent k.provider.maxSessionAgeMinutes⟩ answer =
        some (issuer, claims))
    (hprofile : mappedProfile env k.columns claims = some profile) (hintent : k.request.intent = intent) :
    Grants env i st.log ⟨k, issuer, profile⟩ intent := by
  obtain ⟨j, start, hstarted⟩ := hs.consumed i k hholds.1
  have hstart := hs.starts j _ _ hstarted
  have hpresented := hs.presented i k hholds.1
  obtain rfl : start.nonce = nonce := Except.ok.inj (hstart.nonce.symm.trans hnonce)
  obtain rfl : start.codeVerifier = codeVerifier := Except.ok.inj (hstart.codeVerifier.symm.trans hcodeVerifier)
  exact ⟨hholds,
    ⟨start, ⟨j, hstarted⟩, hstart, ⟨i, hholds.1⟩, hpresented, answer, claims, hpresented.provider ▸ hgrant, hprofile⟩,
    hintent⟩

/-- A new event of another kind leaves the grant as it is. -/
theorem Grants.cons {g : Granted} {intent : OidcAuthorizationIntent} {log : List OidcEvent} {e : OidcEvent}
    (h : Grants env i log g intent) (he : e.completedId = none) : Grants env i (e :: log) g intent where
  holds := ⟨List.mem_cons_of_mem _ h.holds.1, fun hhas => h.holds.2 (hhas.of_cons he)⟩
  origin := h.origin.imp fun _ ho => ho.mono (List.suffix_cons _ _)
  intent := h.intent

theorem known_consumed (hs : OidcInv env setup st) {k : Consumption} (hrow : ∃ r ∈ st.requests, r.id = k.request.id)
    (hlog : st'.log = .consumed i k :: st.log) : Known env i st' (.grant k) := by
  have hnew : ¬Has OidcEvent.consumedId st.log k.request.id := by
    rintro ⟨e, he, hkey⟩
    obtain ⟨r, hr, hid⟩ := hrow
    cases e with
    | consumed j k' => exact hs.requests.gone j k' he r hr (hid.trans (Option.some.inj hkey).symm)
    | _ => cases hkey
  unfold Known
  rw [hlog]
  exact ⟨⟨List.mem_cons_self, fun hhas => hnew (hs.completed.consumed _ (hhas.of_cons rfl))⟩,
    fun hhas => hnew (hs.provisioned.consumed _ (hhas.of_cons rfl))⟩

theorem known_exchanging {record : OidcLoginCode} {p q : Point} {auth : Store} (hp : Exchanging i st.log record p)
    (h : stmt env.auth st.auth i p c.toChoice = some (auth, q)) :
    Exchanging i (recorded st auth record ++ st.log) record q := by
  obtain ⟨hlog, -, hq⟩ := record_exchanging hp h
  rcases hq with hq | ⟨a, rfl⟩
  · rcases hlog with hlog | ⟨session, hlog, -⟩
    · rw [recorded_same hlog]
      exact hq
    · -- the statement that records a session ends the call
      cases p with
      | codeUser record' minutes context =>
        obtain ⟨rfl, -⟩ := codeUser_cases h
        exact absurd hlog.symm (List.cons_ne_self _ _)
      | issueTokens userId context external =>
        rcases issueTokens_cases h with ⟨e, rfl, rfl⟩ | ⟨session, a, rfl, -⟩ <;> trivial
      | done result => cases h
      | _ => exact hp.elim
  · trivial

theorem known_exec (h : OidcExec env st i c p st' q) (hs : OidcInv env setup st) (hp : Known env i st p) :
    Known env i st' q := by
  cases h with
  | moved hq => exact known_idle hq
  | starting hstart => exact known_starting hstart
  | session hstmt => exact (sessionStep_of_exec hp (exec_of_stmt hstmt)).point
  | started | expired | linked | unlinked | codeIssued => trivial
  | found hmem hhash hprovider hok => exact known_found hs.requests hmem hhash hprovider hok
  | consumed hrow => exact known_consumed hs (hrow.imp fun _ hr => ⟨hr.1, hr.2.1⟩) rfl
  | granted hnonce hcodeVerifier hgrant hprofile hq =>
    cases hq with
    | login hintent => exact ⟨grants_of_grant hs.requests hp.1 hnonce hcodeVerifier hgrant hprofile hintent, hp.2⟩
    | link hintent huser => exact ⟨grants_of_grant hs.requests hp.1 hnonce hcodeVerifier hgrant hprofile hintent, huser⟩
    | unlink hintent huser htarget =>
      exact ⟨grants_of_grant hs.requests hp.1 hnonce hcodeVerifier hgrant hprofile hintent, huser, htarget⟩
  | provisioning hmove => rcases hmove with ⟨rfl, rfl⟩ | ⟨hash, rfl, rfl⟩ <;> exact hp
  | identified hmem hof => exact ⟨hp.1, hof, hs.identities.present _ hmem⟩
  | provisioned hprovision =>
    obtain ⟨-, -, -, hlog, -⟩ := provisionTx_ok hprovision
    exact ⟨hp.1.cons rfl, ⟨rfl, rfl, rfl⟩, hlog ▸ List.mem_cons_self⟩
  | checked hmove => rcases hmove with ⟨rfl, rfl⟩ | ⟨rfl, rfl⟩ <;> exact hp
  | notRedeemed => exact rfl
  | redeemed hmem hunused htime huserAgent =>
    refine ⟨rfl, ⟨_, _, List.mem_cons_self⟩, fun hhas => hs.codes.not_redeemed hmem hunused ?_⟩
    obtain ⟨e, he, hkey⟩ := Has.of_cons hhas rfl
    cases e with
    | signedIn code session =>
      obtain ⟨⟨j, context, time, hredeemed⟩, -⟩ := hs.sessions.signedIn code session he
      exact ⟨_, hredeemed, hkey⟩
    | _ => cases hkey
  | exchanging hstmt => exact known_exchanging hp hstmt

end AdWiki.Auth.Oidc
