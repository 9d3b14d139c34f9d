import AdWiki.Auth.OidcOrigin
import AdWiki.Auth.Revocation

/-!
# Where sessions and identities come from

* `starts_run`: a request on record was started by the call with its number, for the purpose of that call.
* `sso_sessions_traced`: every session of a provider comes from a start of its own.
* `identities_traced`: every identity was linked, and unlinked, by a call of its user for it, or came with its user at a
  login.
-/

namespace AdWiki.Auth.Oidc

open Chronicle

variable {env : Env} {setup : Setup} {st : OidcStore} {i : Nat}

/-! ## Every run -/

theorem idle_beginCallback (callback : Callback) : idle (beginCallback env callback) = true := by
  unfold beginCallback
  split
  · rfl
  · split <;> rfl

theorem known_entry (call : OidcCall) : Known env i st (oidcEntry env call) := by
  cases call with
  | session r => exact sessionPoint_entry r.2
  | startLogin providerSlug => exact known_startAuthorization providerSlug ⟨.login, none, none⟩
  | startLink providerSlug userId => exact known_startAuthorization providerSlug ⟨.link, some userId, none⟩
  | completeLogin callback => exact known_idle (idle_beginCallback callback)
  | startUnlink | exchangeLoginCode => trivial

abbrev TracedSys (env : Env) (setup : Setup) : OidcSys → Prop :=
  Interleave.Inv (OidcInv env setup) fun i st p => Known env i st p

theorem tracedSys_step {s t : OidcSys} {l : OidcLabel} (hs : TracedSys env setup s) (h : oidcStep env s l = some t) :
    TracedSys env setup t := by
  refine Interleave.inv_step (P := fun _ _ => True) (fun i st call _ => known_entry call) ?_ l hs trivial h
  intro s i p c st' q hinv _ hp hstmt
  have hexec := oidcExec_of_stmt hstmt
  have hknown := hinv.calls i p hp
  have hlater := later_exec hexec hknown
  exact ⟨oidcInv_exec hexec hinv.store hknown, known_exec hexec hinv.store hknown,
    fun j p' hj hp' => known_later hinv.store.requests hinv.store.codes hj hlater (hinv.calls j p' hp')⟩

theorem once_nil {key : OidcEvent → Option String} : UsedOnce key [] :=
  ⟨.nil, fun _ h => by obtain ⟨e, he, -⟩ := h; cases he⟩

theorem tracedSys_init (setup : Setup) : TracedSys env setup (oidcInit setup) where
  store :=
    { requests :=
        { logged := by simp [oidcInit]
          starts := by simp [oidcInit]
          ids := .nil
          consumed := by simp [oidcInit]
          presented := by simp [oidcInit]
          gone := by simp [oidcInit]
          once := .nil }
      codes :=
        { logged := by simp [oidcInit, init]
          issued := by simp [oidcInit]
          hashes := .nil
          redeemed := by simp [oidcInit]
          used := by simp [oidcInit]
          once := .nil }
      sessions :=
        { signedIn := by simp [oidcInit]
          once := .nil
          sessions := by simp [oidcInit, init, List.filterMap_map, Function.comp_def] }
      identities :=
        { present := fun identity hmem => List.mem_map_of_mem hmem
          ids := by
            have hids : (setup.identities.map Event.linked).filterMap Event.identityId =
                setup.identities.map ExternalIdentity.id := by
              simp [List.filterMap_map, Function.comp_def, Event.identityId]
            unfold Once
            exact hids.symm ▸ setup.identityIds
          origin := fun identity he => by
            obtain ⟨identity', hmem, heq⟩ := List.mem_map.mp he
            cases heq
            exact .inl hmem
          gone := fun identity he => by
            obtain ⟨identity', hmem, heq⟩ := List.mem_map.mp he
            cases heq
            exact .inl hmem }
      completed := once_nil
      provisioned := once_nil }
  calls := by simp [oidcInit]

theorem tracedSys_run {setup : Setup} {ls : List OidcLabel} {t : OidcSys}
    (h : Runs.run (oidcStep env) (oidcInit setup) ls = some t) : TracedSys env setup t :=
  Runs.inv_run (fun _ _ _ hs hstep => tracedSys_step hs hstep) (tracedSys_init setup) h

/-! ## Who started a request -/

/-- The purpose for which a call starts a request at the provider with this slug. -/
inductive StartsFor : OidcCall → String → AuthorizationPurpose → Prop
  | login {providerSlug} : StartsFor (.startLogin providerSlug) providerSlug ⟨.login, none, none⟩
  | link {providerSlug userId} : StartsFor (.startLink providerSlug userId) providerSlug ⟨.link, some userId, none⟩
  | unlink {identityId userId providerSlug} :
    StartsFor (.startUnlink identityId userId) providerSlug ⟨.unlink, some userId, some identityId⟩

/-- What a call that is on its way to a request was started for. -/
def CallOf (env : Env) (call : OidcCall) : OidcPoint → Prop
  | .unlinkFind identityId userId => call = .startUnlink identityId userId
  | .startUser providerSlug _ purpose | .startProvider providerSlug purpose => StartsFor call providerSlug purpose
  | .startTx provider purpose => StartsFor call (env.slug provider.id) purpose
  | _ => True

/-- Every request on record was started by the call with its number. -/
def Starts (env : Env) (calls : List OidcCall) (st : OidcStore) : Prop :=
  ∀ i request start, .started i request start ∈ st.log → ∃ call, calls[i]? = some call ∧
    StartsFor call (env.slug request.providerId) ⟨request.intent, request.userId, request.unlinkTargetId⟩

section Starts

variable {calls : List OidcCall} {call : OidcCall} {st' : OidcStore} {p q : OidcPoint} {c : OidcChoice}

theorem callOf_startAuthorization {providerSlug : String} {purpose : AuthorizationPurpose}
    (h : StartsFor call providerSlug purpose) : CallOf env call (startAuthorization env providerSlug purpose) := by
  unfold startAuthorization
  split
  · trivial
  · split <;> exact h

theorem callOf_idle (hq : idle q = true) : CallOf env call q := by
  cases q <;> trivial

theorem callOf_entry (call : OidcCall) : CallOf env call (oidcEntry env call) := by
  cases call with
  | startLogin providerSlug => exact callOf_startAuthorization .login
  | startLink providerSlug userId => exact callOf_startAuthorization .link
  | startUnlink identityId userId => rfl
  | completeLogin callback => exact callOf_idle (idle_beginCallback callback)
  | session | exchangeLoginCode => trivial

theorem starts_append (h : Starts env calls st) : Starts env (calls ++ [call]) st := by
  intro i request start hmem
  obtain ⟨call', hcall, hfor⟩ := h i request start hmem
  exact ⟨call', by rw [List.getElem?_append_left (List.getElem?_eq_some_iff.mp hcall).1, hcall], hfor⟩

theorem Starts.frame (h : Starts env calls st) (hlog : Grows (fun e => e.startedId = none) st.log st'.log) :
    Starts env calls st' :=
  fun i request start hmem => h i request start (hlog.mem hmem fun hnew => by cases hnew)

theorem callOf_exec (h : OidcExec env st i c p st' q) (hs : Starts env calls st) (hi : calls[i]? = some call)
    (hp : CallOf env call p) : CallOf env call q ∧ Starts env calls st' := by
  cases h with
  | moved hq => exact ⟨callOf_idle hq, hs⟩
  | starting hstart =>
    refine ⟨?_, hs⟩
    cases hstart with
    | unlink =>
      cases hp
      exact callOf_startAuthorization .unlink
    | user | provider => exact hp
  | session =>
    refine ⟨trivial, hs.frame (.append fun e he => ?_)⟩
    obtain ⟨provider, rfl⟩ := mem_removals he
    rfl
  | started =>
    refine ⟨trivial, fun j request start hmem => ?_⟩
    rcases List.mem_cons.mp hmem with heq | hmem
    · cases heq
      exact ⟨call, hi, hp⟩
    · exact hs j request start hmem
  | granted hnonce hcodeVerifier hgrant hprofile hq => cases hq <;> exact ⟨trivial, hs⟩
  | provisioning hmove => rcases hmove with ⟨rfl, rfl⟩ | ⟨hash, rfl, rfl⟩ <;> exact ⟨trivial, hs⟩
  | checked hmove => rcases hmove with ⟨rfl, rfl⟩ | ⟨rfl, rfl⟩ <;> exact ⟨trivial, hs⟩
  | found | expired | identified | notRedeemed => exact ⟨trivial, hs⟩
  | consumed | linked | unlinked | provisioned | codeIssued | redeemed => exact ⟨trivial, hs.frame (.cons rfl)⟩
  | exchanging =>
    refine ⟨trivial, hs.frame (.append fun e he => ?_)⟩
    obtain ⟨session, -, rfl⟩ := List.mem_map.mp he
    rfl

/-- A request on record was started by the call with its number. -/
theorem starts_run {setup : Setup} {ls : List OidcLabel} {t : OidcSys}
    (h : Runs.run (oidcStep env) (oidcInit setup) ls = some t) :
    Starts env (Interleave.started ls) t.store := by
  have hinit : Interleave.Sourced (CallOf env) (Starts env) [] (oidcInit setup) :=
    ⟨rfl, by simp [oidcInit], by simp [Starts, oidcInit]⟩
  exact (Interleave.sourced_run callOf_entry (fun _ _ _ hs => starts_append hs)
    (fun _ _ _ _ _ _ _ _ hs hi hp hq => callOf_exec (oidcExec_of_stmt hq) hs hi hp) hinit h).store

end Starts

/-- The request with the values of this start was started by this call. -/
def StartedBy (calls : List OidcCall) (log : List OidcEvent) (request : OidcAuthorizationRequest) (start : Start)
    (call : OidcCall) : Prop := ∃ i, .started i request start ∈ log ∧ calls[i]? = some call

/-- Linked by a call of its user for its provider, or created with its user at a login of its provider. -/
def LinkedByCall (env : Env) (calls : List OidcCall) (log : List OidcEvent) (identity : ExternalIdentity) : Prop :=
  (∃ g start, .linked g ∈ log ∧ Origin env log g start ∧
    StartedBy calls log g.request start (.startLink (env.slug identity.providerId) identity.userId) ∧
      OfGrant g identity) ∨
  ∃ g start user, .provisioned g identity [user] ∈ log ∧ Origin env log g start ∧
    StartedBy calls log g.request start (.startLogin (env.slug identity.providerId)) ∧ OfGrant g identity ∧
    ProvisionedUser env.toLowerCase g.profile identity.userId user

/-- Unlinked by a call of its user for this very identity. -/
def UnlinkedByCall (env : Env) (calls : List OidcCall) (log : List OidcEvent) (identity : ExternalIdentity) : Prop :=
  ∃ g start, .unlinked g ∈ log ∧ Origin env log g start ∧
    StartedBy calls log g.request start (.startUnlink identity.id identity.userId) ∧ OfGrant g identity

theorem StartsFor.eq_startLogin {call : OidcCall} {providerSlug : String} {userId unlinkTargetId : Option String}
    (h : StartsFor call providerSlug ⟨.login, userId, unlinkTargetId⟩) : call = .startLogin providerSlug := by
  cases h
  rfl

theorem StartsFor.eq_startLink {call : OidcCall} {providerSlug userId : String} {unlinkTargetId : Option String}
    (h : StartsFor call providerSlug ⟨.link, some userId, unlinkTargetId⟩) : call = .startLink providerSlug userId := by
  cases h
  rfl

theorem StartsFor.eq_startUnlink {call : OidcCall} {providerSlug userId identityId : String}
    (h : StartsFor call providerSlug ⟨.unlink, some userId, some identityId⟩) :
    call = .startUnlink identityId userId := by
  cases h
  rfl

theorem startedBy_of_origin {calls : List OidcCall} {g : Granted} {start : Start} (hs : Starts env calls st)
    (h : Origin env st.log g start) : ∃ call, StartedBy calls st.log g.request start call ∧
      StartsFor call (env.slug g.request.providerId) ⟨g.request.intent, g.request.userId, g.request.unlinkTargetId⟩ := by
  obtain ⟨i, hstarted⟩ := h.started
  obtain ⟨call, hcall, hfor⟩ := hs i _ _ hstarted
  exact ⟨call, ⟨i, hstarted, hcall⟩, hfor⟩

theorem linkedByCall_of {calls : List OidcCall} {identity : ExternalIdentity} (hs : Starts env calls st)
    (h : LinkedBy env st.log identity) : LinkedByCall env calls st.log identity := by
  rcases h with ⟨g, start, he, horigin, hintent, hof, huser⟩ | ⟨g, start, user, he, horigin, hintent, hof, huser⟩
  · obtain ⟨call, hcall, hfor⟩ := startedBy_of_origin hs horigin
    rw [hintent, huser, ← hof.provider] at hfor
    exact .inl ⟨g, start, he, horigin, hfor.eq_startLink ▸ hcall, hof⟩
  · obtain ⟨call, hcall, hfor⟩ := startedBy_of_origin hs horigin
    rw [hintent, ← hof.provider] at hfor
    exact .inr ⟨g, start, user, he, horigin, hfor.eq_startLogin ▸ hcall, hof, huser⟩

theorem unlinkedByCall_of {calls : List OidcCall} {identity : ExternalIdentity} (hs : Starts env calls st)
    (h : UnlinkedBy env st.log identity) : UnlinkedByCall env calls st.log identity := by
  obtain ⟨g, start, he, horigin, hintent, hof, huser, htarget⟩ := h
  obtain ⟨call, hcall, hfor⟩ := startedBy_of_origin hs horigin
  rw [hintent, huser, htarget] at hfor
  exact ⟨g, start, he, horigin, hfor.eq_startUnlink ▸ hcall, hof⟩

/-! ## Sessions and identities -/

/-- The code and the session of an exchange. -/
@[simp] def OidcEvent.exchange : OidcEvent → Option (OidcLoginCode × Session)
  | .signedIn code session => some (code, session)
  | _ => none

/-- What lies behind a session of a provider: a login with the request, its code, and the exchange of the code in time and
in the browser of the callback. -/
def Traced (env : Env) (st : OidcStore) (session : Session) (requestId : String) : Prop :=
  ∃ g start code, g.request.id = requestId ∧ Origin env st.log g start ∧ .codeIssued g code ∈ st.log ∧
    CodeFor env st.auth.log g code ∧ SessionOf code session ∧ ∃ i context time, .redeemed i code context time ∈ st.log ∧
      time < code.expiresAt ∧ env.auth.hashUserAgent context.userAgent = env.auth.hashUserAgent g.context.userAgent

theorem traced_of_signedIn (hs : OidcInv env setup st) {code : OidcLoginCode} {session : Session}
    (he : .signedIn code session ∈ st.log) : ∃ requestId, Traced env st session requestId ∧
      ∃ g, .codeIssued g code ∈ st.log ∧ g.request.id = requestId := by
  obtain ⟨⟨i, context, time, hredeemed⟩, hof⟩ := hs.sessions.signedIn code session he
  obtain ⟨⟨g, hissued⟩, htime, huserAgent⟩ := hs.codes.redeemed i code context time hredeemed
  obtain ⟨⟨start, horigin⟩, hcode, -⟩ := hs.codes.issued g code hissued
  exact ⟨g.request.id, ⟨g, start, code, rfl, horigin, hissued, hcode, hof, i, context, time, hredeemed, htime,
    by rw [← huserAgent, hcode.userAgent]⟩, g, hissued, rfl⟩

namespace Demo

/-- Values that keep their text; the key and the vectors are zeros, and the provider answers a request with the nonce of
the start. -/
def wiki : Env where
  auth := Auth.Demo.plainEnv
  toLowerCase := id
  isEmail _ := true
  gcm := Secrets.Demo.zeroGcm
  environment := Secrets.Demo.zeroKey
  slug := id
  hashState := id
  hashBinding := id
  s256 := id
  oidcCallbackUrl slug := "https://wiki/api/auth/oidc/" ++ slug
  authorizationCodeGrant _ _ _ checks answer :=
    if checks.expectedNonce = Secrets.Demo.zeroText ∧ answer = "signed in" then
      some ("https://idp", [("sub", .str "subject"), ("email", .str "user@wiki"), ("email_verified", .bool true),
        ("name", .str "User")])
    else none

def columns : ProviderColumns where
  type := .genericOidc
  claimMapping := some ⟨"sub", "email", "email_verified", "name", "name"⟩
  allowJitProvisioning := false
  defaultRoleId := none

def oneProvider : Setup := ⟨[Auth.Demo.user], "true", [⟨"idp", "Provider", true, 480⟩], [], List.nodup_nil⟩

def state (n : String) : String := "state-of-a-start-in-the-browser-" ++ n

def choose (id token : String) (n : String) : OidcChoice where
  now := 1
  id := id
  token := token
  accepted := true
  userId := ""
  columns := columns
  answer := "signed in"
  start := ⟨state n, Secrets.Demo.zeroText, Secrets.Demo.zeroText, "binding"⟩
  nonceIv := Secrets.Demo.zeros 12
  verifierIv := Secrets.Demo.zeros 12

def callback (n : String) : Callback :=
  ⟨"idp", "https://wiki/api/auth/oidc/idp?code=code", some (state n), some "binding", Auth.Demo.context⟩

/-- Call `i`, statement by statement. -/
def execs (i : Nat) (cs : List OidcChoice) : List OidcLabel := cs.map (.exec i)

/-- The user links the account, and signs in with it. -/
def linkAndLogin : List OidcLabel :=
  .start (.startLink "idp" "user") :: execs 0 [choose "" "" "1", choose "" "" "1", choose "first" "" "1"] ++
    .start (.completeLogin (callback "1")) ::
      execs 1 [choose "" "" "1", choose "" "" "1", choose "" "" "1", choose "identity" "" "1"] ++
    .start (.startLogin "idp") :: execs 2 [choose "" "" "2", choose "second" "" "2"] ++
    .start (.completeLogin (callback "2")) ::
      execs 3 [choose "" "" "2", choose "" "" "2", choose "" "" "2", choose "" "" "2", choose "" "" "2", choose "" "" "2",
        choose "" "code" "2"] ++
    .start (.exchangeLoginCode "code" Auth.Demo.context) ::
      execs 4 [choose "" "" "2", choose "" "" "2", choose "session" "token" "2"]

theorem linkAndLogin_run : ∃ t, Runs.run (oidcStep wiki) (oidcInit oneProvider) linkAndLogin = some t ∧
    (t.store.auth.log.filterMap Event.ssoSession).length = 1 ∧
    t.store.auth.identities = [⟨"identity", "idp", "user", "https://idp", "subject"⟩] := by
  have hrun : (Runs.run (oidcStep wiki) (oidcInit oneProvider) linkAndLogin).any fun t =>
      (t.store.auth.log.filterMap Event.ssoSession).length = 1 ∧
        t.store.auth.identities = [⟨"identity", "idp", "user", "https://idp", "subject"⟩] := by
    decide +kernel
  obtain ⟨t, ht, hboth⟩ := (Option.any_eq_true _ _).mp hrun
  exact ⟨t, ht, of_decide_eq_true hboth⟩

end Demo

/-- **Every session of a provider has a start of its own.** In every interleaving the sign-ins of providers on the record
of the session services can be listed with the requests they come from, no request twice: a request that was started,
consumed by a callback with its state and its cookie, and answered by the provider under its nonce and verifier, and a
code for the user of the identity that was redeemed within a minute. -/
theorem sso_sessions_traced (setup : Setup) (ls : List OidcLabel) (t : OidcSys)
    (h : Runs.run (oidcStep env) (oidcInit setup) ls = some t) :
    ∃ origins : List (Session × String), origins.map Prod.fst = t.store.auth.log.filterMap Event.ssoSession ∧
      (origins.map Prod.snd).Nodup ∧ ∀ o ∈ origins, Traced env t.store o.1 o.2 := by
  have hs := (tracedSys_run h).store
  have hexchange : ∀ {code session}, (code, session) ∈ t.store.log.filterMap OidcEvent.exchange →
      .signedIn code session ∈ t.store.log := by
    intro code session hmem
    obtain ⟨e, he, hkey⟩ := List.mem_filterMap.mp hmem
    cases e <;> cases hkey
    exact he
  have hhashes : ((t.store.log.filterMap OidcEvent.exchange).map fun p => p.1.tokenHash) =
      t.store.log.filterMap OidcEvent.signedInHash := by
    rw [List.map_filterMap]
    exact List.filterMap_congr fun e _ => by cases e <;> rfl
  have hsessions :
      ((t.store.log.filterMap OidcEvent.exchange).map Prod.snd) = t.store.log.filterMap OidcEvent.session := by
    rw [List.map_filterMap]
    exact List.filterMap_congr fun e _ => by cases e <;> rfl
  obtain ⟨pairs, hfst, hnodup, hpairs⟩ := exists_pairs (l := t.store.log.filterMap OidcEvent.exchange)
    (R := fun p requestId => Traced env t.store p.2 requestId ∧ ∃ g, .codeIssued g p.1 ∈ t.store.log ∧
      g.request.id = requestId)
    id (List.Nodup.of_map (fun p => p.1.tokenHash) (hhashes ▸ hs.sessions.once))
    (fun p hp => traced_of_signedIn hs (hexchange hp))
    (by
      -- a request gives one code, and a code one session
      rintro ⟨code, session⟩ hp ⟨code', session'⟩ hp' requestId requestId' ⟨-, g, hg, hid⟩ ⟨-, g', hg', hid'⟩ hsame
      have hissued := hs.completed.once.eq hg hg' (congrArg some hid) (congrArg some (hid'.trans hsame.symm))
      cases hissued
      have hsigned := hs.sessions.once.eq (hexchange hp) (hexchange hp') rfl rfl
      cases hsigned
      rfl)
  refine ⟨pairs.map fun p => (p.1.2, p.2), ?_, ?_, fun o ho => ?_⟩
  · rw [hs.sessions.sessions, ← hsessions, ← hfst, List.map_map, List.map_map]
    rfl
  · rw [List.map_map]
    exact hnodup
  · obtain ⟨p, hp, rfl⟩ := List.mem_map.mp ho
    exact (hpairs p hp).1

theorem sso_sessions_traced_login :
    ∃ t, Runs.run (oidcStep Demo.wiki) (oidcInit Demo.oneProvider) Demo.linkAndLogin = some t ∧
    (t.store.auth.log.filterMap Event.ssoSession).length = 1 ∧
    ∃ origins : List (Session × String), origins.map Prod.fst = t.store.auth.log.filterMap Event.ssoSession ∧
      (origins.map Prod.snd).Nodup ∧ ∀ o ∈ origins, Traced Demo.wiki t.store o.1 o.2 := by
  obtain ⟨t, ht, hone, -⟩ := Demo.linkAndLogin_run
  exact ⟨t, ht, hone, sso_sessions_traced _ _ t ht⟩

/-- **Every identity comes and goes by a call for it.** In every interleaving an identity that was ever linked is of the
setup, or was linked by a call of its user, or came with its user, who was created then, at a login; it is there until it
is unlinked by a call of its user for it or its provider is removed; and no request is used twice. -/
theorem identities_traced (setup : Setup) (ls : List OidcLabel) (t : OidcSys)
    (h : Runs.run (oidcStep env) (oidcInit setup) ls = some t) :
    (∀ identity ∈ t.store.auth.identities, .linked identity ∈ t.store.auth.log) ∧
    (∀ identity, .linked identity ∈ t.store.auth.log →
      (identity ∈ setup.identities ∨ LinkedByCall env (Interleave.started ls) t.store.log identity) ∧
      (identity ∈ t.store.auth.identities ∨ UnlinkedByCall env (Interleave.started ls) t.store.log identity ∨
        .providerRemoved identity.providerId ∈ t.store.log)) ∧
    Once OidcEvent.completedId t.store.log ∧ Once OidcEvent.provisionedId t.store.log := by
  have hs := (tracedSys_run h).store
  have hstarts := starts_run h
  refine ⟨hs.identities.present, fun identity he => ⟨?_, ?_⟩, hs.completed.once, hs.provisioned.once⟩
  · exact (hs.identities.origin identity he).imp_right (linkedByCall_of hstarts)
  · exact (hs.identities.gone identity he).imp_right fun hgone => hgone.imp_left (unlinkedByCall_of hstarts)

/-- The identity is there, and is not of the setup. -/
theorem identities_traced_login :
    ∃ t, Runs.run (oidcStep Demo.wiki) (oidcInit Demo.oneProvider) Demo.linkAndLogin = some t ∧
    ∃ identity ∈ t.store.auth.identities, identity ∉ Demo.oneProvider.identities ∧
      LinkedByCall Demo.wiki (Interleave.started Demo.linkAndLogin) t.store.log identity := by
  obtain ⟨t, ht, -, hidentities⟩ := Demo.linkAndLogin_run
  have hmem : ⟨"identity", "idp", "user", "https://idp", "subject"⟩ ∈ t.store.auth.identities := by
    rw [hidentities]
    exact List.mem_singleton_self _
  obtain ⟨hpresent, htraced, -⟩ := identities_traced _ _ t ht
  have hnone : ⟨"identity", "idp", "user", "https://idp", "subject"⟩ ∉ Demo.oneProvider.identities := List.not_mem_nil
  exact ⟨t, ht, _, hmem, hnone, (htraced _ (hpresent _ hmem)).1.resolve_left hnone⟩

end AdWiki.Auth.Oidc
