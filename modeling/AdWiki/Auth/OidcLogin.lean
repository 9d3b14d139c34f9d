import AdWiki.Auth.LastSignIn
import AdWiki.Common.SecretEncryption
import AdWiki.Sso.Claims

/-!
# Signing in at a provider

`OidcService` from the start of an authorization to the session: a request row with the hashes of a state and of a value
in the browser's cookie, the callback that consumes it, the exchange of the provider's code, and the linking, unlinking or
login it was started for; a login leaves a code that the browser exchanges for a session. The calls interleave with those
of the session services, statement by statement.

`OidcStore.log` is not part of the services: it records what has happened, newest first, and by which call.
-/

namespace AdWiki.Auth.Oidc

/-! ## Values from outside -/

inductive IdentityProviderType
  | genericOidc
  | microsoftEntra
  | keycloak
  deriving DecidableEq, Repr

structure IdentityProviderClaimMapping where
  subject : String
  email : String
  emailVerified : String
  username : String
  displayName : String

/-- Columns of a provider that its administrators may rewrite; a mapping that the schema does not read is `none`. -/
structure ProviderColumns where
  type : IdentityProviderType
  claimMapping : Option IdentityProviderClaimMapping
  allowJitProvisioning : Bool
  defaultRoleId : Option String

inductive OidcAuthorizationIntent
  | login
  | link
  | unlink
  deriving DecidableEq, Repr

/-- The checks that `authorizationCodeGrant` is asked for. -/
structure GrantChecks where
  expectedState : String
  expectedNonce : String
  pkceCodeVerifier : String
  maxAge : Nat
  deriving DecidableEq

abbrev ClaimSet := List (String × Sso.Json)

/-- Platform functions and settings. `authorizationCodeGrant` is the token request to a provider with its checks: the
issuer and the claims, from the URL of the callback and the provider's answer. -/
structure Env where
  auth : Auth.Env
  toLowerCase : String → String
  isEmail : String → Bool
  gcm : Secrets.Gcm
  environment : String → Option String
  slug : String → String
  hashState : String → String
  hashBinding : String → String
  s256 : String → String
  oidcCallbackUrl : String → String
  authorizationCodeGrant : String → String → String → GrantChecks → String → Option (String × ClaimSet)

def Env.isConfigured (env : Env) : Bool := Secrets.isConfigured Secrets.oidcSecrets env.environment

def Env.encrypt (env : Env) (iv : Secrets.Bytes) (value : String) : Except Secrets.Failure String :=
  Secrets.encrypt env.gcm Secrets.oidcSecrets env.environment iv value

def Env.decrypt (env : Env) (value : String) : Except HttpError String :=
  Secrets.decrypt env.gcm Secrets.oidcSecrets env.environment value

/-! ## The profile -/

/-- `z.string().trim().min(1).max(max)` -/
def textClaim (max : Nat) (claim : Option Sso.Json) : Option String :=
  match claim with
  | some (.str s) => some (Js.trim s) |>.filter fun t => 1 ≤ Js.length t && Js.length t ≤ max
  | _ => none

def acceptsEmailVerificationClaim (type : IdentityProviderType) (claim : Option Sso.Json) : Bool :=
  match type, claim with
  | _, some (.bool true) => true
  | .microsoftEntra, none => true
  | _, _ => false

/-- `mappedProfile`; the user name and the display name have to be there, and are columns that are not modelled. -/
def mappedProfile (env : Env) (columns : ProviderColumns) (claims : ClaimSet) : Option MappedOidcProfile := do
  let mapping ← columns.claimMapping
  guard (acceptsEmailVerificationClaim columns.type (Sso.claimAtPath claims mapping.emailVerified))
  let subject ← textClaim 1000 (Sso.claimAtPath claims mapping.subject)
  let email ← textClaim 254 (Sso.claimAtPath claims mapping.email)
  guard (env.isEmail email)
  let _ ← textClaim 500 (Sso.claimAtPath claims mapping.username)
  let _ ← textClaim 100 (Sso.claimAtPath claims mapping.displayName)
  return ⟨subject, env.toLowerCase email⟩

/-! ## Tables -/

structure OidcAuthorizationRequest where
  id : String
  providerId : String
  stateHash : String
  browserBindingHash : String
  encryptedCodeVerifier : String
  encryptedNonce : String
  redirectUri : String
  intent : OidcAuthorizationIntent
  userId : Option String
  unlinkTargetId : Option String
  expiresAt : Time
  deriving DecidableEq

/-- The values of a start that its browser and the provider get, and the row has hashed or encrypted. -/
structure Start where
  state : String
  nonce : String
  codeVerifier : String
  browserBinding : String
  deriving DecidableEq

structure AuthorizationPurpose where
  intent : OidcAuthorizationIntent
  userId : Option String
  unlinkTargetId : Option String

/-- A request to the callback; `state` is that of the URL, `browserBinding` the value of the cookie. -/
structure Callback where
  providerSlug : String
  url : String
  state : Option String
  browserBinding : Option String
  context : RequestContext

/-- A callback with the row that it consumes and the provider's row read with it. -/
structure Consumption where
  request : OidcAuthorizationRequest
  provider : IdentityProvider
  columns : ProviderColumns
  providerSlug : String
  url : String
  state : String
  browserBinding : String
  context : RequestContext
  time : Time

/-- The outcome of the token request. -/
structure Granted extends Consumption where
  issuer : String
  profile : MappedOidcProfile

inductive OidcEvent
  | started (call : Nat) (request : OidcAuthorizationRequest) (start : Start)
  | consumed (call : Nat) (consumption : Consumption)
  | linked (granted : Granted)
  | unlinked (granted : Granted)
  | provisioned (granted : Granted) (identity : ExternalIdentity) (created : List User)
  | codeIssued (granted : Granted) (code : OidcLoginCode)
  | redeemed (call : Nat) (code : OidcLoginCode) (context : RequestContext) (time : Time)
  | signedIn (code : OidcLoginCode) (session : Session)
  | providerRemoved (providerId : String)

structure OidcStore where
  auth : Store
  requests : List OidcAuthorizationRequest
  log : List OidcEvent

/-! ## Calls -/

inductive OidcLoginErrorCode
  | invalidRequest
  | providerUnavailable
  | accountNotLinked
  | accountUnavailable
  | accountConflict
  | claimsInvalid
  | jitUnavailable
  | syncFailed
  | groupOverageUnresolved
  deriving DecidableEq, Repr

def OidcLoginErrorCode.text : OidcLoginErrorCode → String
  | .invalidRequest => "invalid_request"
  | .providerUnavailable => "provider_unavailable"
  | .accountNotLinked => "account_not_linked"
  | .accountUnavailable => "account_unavailable"
  | .accountConflict => "account_conflict"
  | .claimsInvalid => "claims_invalid"
  | .jitUnavailable => "jit_unavailable"
  | .syncFailed => "sync_failed"
  | .groupOverageUnresolved => "group_overage_unresolved"

inductive Failure
  | http (e : HttpError)
  | serviceUnavailable (message : String)
  | login (code : OidcLoginErrorCode) (accountAction : Bool)
  deriving DecidableEq

/-- The parameters of the authorization URL; `prompt` is `prompt=login`. -/
structure AuthorizationUrl where
  redirectUri : String
  codeChallenge : String
  state : String
  nonce : String
  maxAge : Nat
  prompt : Bool
  deriving DecidableEq

inductive Answer
  | started (url : AuthorizationUrl) (browserBinding : String)
  | loginCode (code : String)
  | linked
  | unlinked
  deriving DecidableEq

/-- The calls of the session services that are not about identities and login codes. -/
def ofSession : Call → Bool
  | .exchangeLoginCode .. | .completeLogin .. | .linkIdentity .. | .unlinkIdentity .. => false
  | _ => true

inductive OidcCall
  | session (r : { r : Call // ofSession r = true })
  | startLogin (providerSlug : String)
  | startLink (providerSlug userId : String)
  | startUnlink (identityId userId : String)
  | completeLogin (callback : Callback)
  | exchangeLoginCode (code : String) (context : RequestContext)

/-- The next statement or transaction of a call. `redeemed` is the rest of `exchangeLoginCode`, in the session services.
-/
inductive OidcPoint
  | auth (p : Point)
  | unlinkFind (identityId userId : String)
  | startUser (providerSlug userId : String) (purpose : AuthorizationPurpose)
  | startProvider (providerSlug : String) (purpose : AuthorizationPurpose)
  | startTx (provider : IdentityProvider) (purpose : AuthorizationPurpose)
  | consumeFind (callback : Callback) (state browserBinding : String)
  | consumeExpired (requestId : String)
  | consumeDelete (consumption : Consumption)
  | grant (consumption : Consumption)
  | linkTx (granted : Granted) (userId : String)
  | unlinkTx (granted : Granted) (userId identityId : String)
  | identityFind (granted : Granted)
  | provisionRole (granted : Granted)
  | provisionTx (granted : Granted) (passwordHash : String)
  | resolveGroups (granted : Granted) (identity : ExternalIdentity)
  | synchronize (granted : Granted) (identity : ExternalIdentity)
  | loginTx (granted : Granted) (identity : ExternalIdentity)
  | codeConsume (code : String) (context : RequestContext)
  | redeemed (record : OidcLoginCode) (p : Point)
  | done (result : Except Failure Answer)

/-- The outside choices of a statement: the clock, fresh values, what a row says in the columns that are not modelled, the
provider's answer, and the outcome of work outside this model. -/
structure OidcChoice extends SignInChoice where
  columns : ProviderColumns
  answer : String
  start : Start
  nonceIv : Secrets.Bytes
  verifierIv : Secrets.Bytes

/-! ## Statements -/

def AUTHORIZATION_TTL_MS : Nat := 10 * 60 * 1000

def ACCOUNT_REAUTH_MAX_AGE_SECONDS : Nat := 5 * 60

/-- `/^[A-Za-z0-9_-]{32,512}$/` -/
def OIDC_VALUE_PATTERN (value : String) : Bool :=
  value.toList.all (fun c => c.isAlphanum || c = '_' || c = '-') && 32 ≤ value.toList.length && value.toList.length ≤ 512

/-- The age of the provider's session that a start asks for and the callback checks, each with the provider's row that it
reads itself. -/
def maxAge (intent : OidcAuthorizationIntent) (maxSessionAgeMinutes : Nat) : Nat :=
  match intent with
  | .login => maxSessionAgeMinutes * 60
  | _ => ACCOUNT_REAUTH_MAX_AGE_SECONDS

section Statements

variable (env : Env)

def fail (st : OidcStore) (e : Failure) : Option (OidcStore × OidcPoint) := some (st, .done (.error e))

/-- An error of the callback after the request was consumed: `OidcLoginError` as it is, any other one as
`provider_unavailable`; the flag says that an account action was asked for. -/
def loginFail (st : OidcStore) (k : Consumption) (code : OidcLoginErrorCode) : Option (OidcStore × OidcPoint) :=
  fail st (.login code (k.request.intent ≠ .login))

/-- The code of an error that the transactions of the session services raise. -/
def codeOf : HttpError → OidcLoginErrorCode
  | .oidc text =>
    if text = OidcLoginErrorCode.accountUnavailable.text then .accountUnavailable
    else if text = OidcLoginErrorCode.accountConflict.text then .accountConflict
    else if text = OidcLoginErrorCode.jitUnavailable.text then .jitUnavailable
    else .providerUnavailable
  | _ => .providerUnavailable

/-- The session services wrote `auth`: requests of a provider or an unlink target that is gone go with it. -/
def OidcStore.withAuth (st : OidcStore) (auth : Store) (events : List OidcEvent) : OidcStore where
  auth := auth
  requests := st.requests.filter fun r =>
    (auth.provider r.providerId).isSome && r.unlinkTargetId.all fun id => (auth.identity id).isSome
  log := events ++ st.log

/-- The removal of a provider is on record. -/
def removals (p q : Point) : List OidcEvent :=
  match p, q with
  | .removeDelete provider, .done (.ok _) => [.providerRemoved provider.id]
  | _, _ => []

/-- `startAuthorization` up to its first statement. -/
def startAuthorization (providerSlug : String) (purpose : AuthorizationPurpose) : OidcPoint :=
  if env.isConfigured = false then .done (.error (.serviceUnavailable "SSO ist nicht vollständig konfiguriert."))
  else
    match purpose.userId.filter (· ≠ "") with
    | some userId => .startUser providerSlug userId purpose
    | none => .startProvider providerSlug purpose

/-- `completeLogin` up to its first statement. -/
def beginCallback (callback : Callback) : OidcPoint :=
  if env.isConfigured = false then .done (.error (.serviceUnavailable "SSO ist nicht vollständig konfiguriert."))
  else
    match callback.state.filter OIDC_VALUE_PATTERN, callback.browserBinding.filter (· ≠ "") with
    | some state, some browserBinding => .consumeFind callback state browserBinding
    | _, _ => .done (.error (.login .invalidRequest false))

def oidcEntry : OidcCall → OidcPoint
  | .session r => .auth (entry env.auth r.1)
  | .startLogin providerSlug => startAuthorization env providerSlug ⟨.login, none, none⟩
  | .startLink providerSlug userId => startAuthorization env providerSlug ⟨.link, some userId, none⟩
  | .startUnlink identityId userId => .unlinkFind identityId userId
  | .completeLogin callback => beginCallback env callback
  | .exchangeLoginCode code context => .codeConsume code context

/-- The row of a start. -/
def newRequest (provider : IdentityProvider) (purpose : AuthorizationPurpose) (c : OidcChoice)
    (encryptedCodeVerifier encryptedNonce : String) : OidcAuthorizationRequest where
  id := c.id
  providerId := provider.id
  stateHash := env.hashState c.start.state
  browserBindingHash := env.hashBinding c.start.browserBinding
  encryptedCodeVerifier := encryptedCodeVerifier
  encryptedNonce := encryptedNonce
  redirectUri := env.oidcCallbackUrl (env.slug provider.id)
  intent := purpose.intent
  userId := purpose.userId
  unlinkTargetId := purpose.unlinkTargetId
  expiresAt := c.now + AUTHORIZATION_TTL_MS

@[simp] def OidcEvent.startedId : OidcEvent → Option String
  | .started _ request _ => some request.id
  | _ => none

@[simp] def OidcEvent.startedHash : OidcEvent → Option String
  | .started _ request _ => some request.stateHash
  | _ => none

@[simp] def OidcEvent.issuedHash : OidcEvent → Option String
  | .codeIssued _ code => some code.tokenHash
  | _ => none

/-- A random value is not drawn twice, and hashes do not collide: the values of a start. -/
def freshStart (st : OidcStore) (c : OidcChoice) : Bool :=
  !(st.log.filterMap OidcEvent.startedId).contains c.id &&
    !(st.log.filterMap OidcEvent.startedHash).contains (env.hashState c.start.state) &&
    c.start.nonce ≠ "" && c.start.codeVerifier ≠ "" && c.nonceIv.length = Secrets.IV_BYTES &&
    c.verifierIv.length = Secrets.IV_BYTES

/-- The transaction of a start, with the foreign keys of the new row. -/
def startTx (st : OidcStore) (i : Nat) (provider : IdentityProvider) (purpose : AuthorizationPurpose) (c : OidcChoice) :
    Option (OidcStore × OidcPoint) :=
  match env.encrypt c.verifierIv c.start.codeVerifier, env.encrypt c.nonceIv c.start.nonce with
  | .ok encryptedCodeVerifier, .ok encryptedNonce =>
    if freshStart env st c = false then none
    else if (st.auth.provider provider.id).isNone ∨ purpose.userId.any (fun id => (st.auth.user id).isNone) ∨
        purpose.unlinkTargetId.any (fun id => (st.auth.identity id).isNone) then fail st (.http .foreignKey)
    else
      let request := newRequest env provider purpose c encryptedCodeVerifier encryptedNonce
      some ({ st with
          auth :=
            { st.auth with
              loginCodes := Rows.deleteMany (fun code => decide (code.expiresAt ≤ c.now) || code.usedAt.isSome)
                st.auth.loginCodes }
          requests := Rows.deleteMany (fun r => decide (r.expiresAt ≤ c.now)) st.requests ++ [request]
          log := .started i request c.start :: st.log },
        .done (.ok (.started
          ⟨request.redirectUri, env.s256 c.start.codeVerifier, c.start.state, c.start.nonce,
            maxAge purpose.intent provider.maxSessionAgeMinutes, purpose.intent ≠ .login⟩ c.start.browserBinding)))
  | _, _ => fail st (.http (.internal "Internal server error"))

/-- The checks of `consumeAuthorizationRequest` on the row that was found. -/
def consumable (request : OidcAuthorizationRequest) (provider : IdentityProvider) (callback : Callback)
    (browserBinding : String) (now : Time) : Bool :=
  now < request.expiresAt && env.slug provider.id == callback.providerSlug && provider.isActive &&
    request.browserBindingHash == env.hashBinding browserBinding

/-- The first statement of `consumeAuthorizationRequest`; a row comes with its provider. -/
def consumeFind (st : OidcStore) (callback : Callback) (state browserBinding : String) (c : OidcChoice) :
    Option (OidcStore × OidcPoint) :=
  match st.requests.find? (·.stateHash == env.hashState state) with
  | none => fail st (.login .invalidRequest false)
  | some request =>
    match st.auth.provider request.providerId with
    | none => fail st (.login .invalidRequest false)
    | some provider =>
      if consumable env request provider callback browserBinding c.now then
        some (st, .consumeDelete
          ⟨request, provider, c.columns, callback.providerSlug, callback.url, state, browserBinding,
            callback.context, c.now⟩)
      else if request.expiresAt ≤ c.now then some (st, .consumeExpired request.id)
      else fail st (.login .invalidRequest false)

/-- The token request and the profile, and what the callback goes on with. -/
def grant (st : OidcStore) (k : Consumption) (c : OidcChoice) : Option (OidcStore × OidcPoint) :=
  if c.accepted = false then loginFail st k .providerUnavailable
  else
    match env.decrypt k.request.encryptedNonce, env.decrypt k.request.encryptedCodeVerifier with
    | .ok nonce, .ok codeVerifier =>
      match env.authorizationCodeGrant k.provider.id k.request.redirectUri k.url
          ⟨k.state, nonce, codeVerifier, maxAge k.request.intent k.provider.maxSessionAgeMinutes⟩ c.answer with
      | none => loginFail st k .providerUnavailable
      | some (issuer, claims) =>
        match mappedProfile env k.columns claims with
        | none => loginFail st k .claimsInvalid
        | some profile =>
          let granted : Granted := ⟨k, issuer, profile⟩
          match k.request.intent, k.request.userId.filter (· ≠ ""), k.request.unlinkTargetId.filter (· ≠ "") with
          | .login, _, _ => some (st, .identityFind granted)
          | .link, some userId, _ => some (st, .linkTx granted userId)
          | .unlink, some userId, some identityId => some (st, .unlinkTx granted userId identityId)
          | _, _, _ => loginFail st k .invalidRequest
    | _, _ => loginFail st k .providerUnavailable

/-- One statement or transaction of call `i`. -/
def oidcStmt (st : OidcStore) (i : Nat) (p : OidcPoint) (c : OidcChoice) : Option (OidcStore × OidcPoint) :=
  match p with
  | .auth p => (stmt env.auth st.auth i p c.toChoice).map fun q => (st.withAuth q.1 (removals p q.2), .auth q.2)
  | .unlinkFind identityId userId =>
    match st.auth.identities.find? fun row => row.id == identityId && row.userId == userId with
    | none => fail st (.http (.notFound "Verknüpfte SSO-Identität nicht gefunden."))
    | some identity =>
      if (st.auth.provider identity.providerId).all (!·.isActive) then
        fail st (.http (.notFound "Verknüpfte SSO-Identität nicht gefunden."))
      else if (st.auth.user userId).all (fun user => !user.isActive || user.isProtected) ∨
          (st.auth.user userId).all (!·.hasLocalPassword) ∧ st.auth.identities.countP (·.userId == userId) ≤ 1 then
        fail st (.http (.conflict "Die letzte verfügbare Anmeldemethode kann nicht entfernt werden."))
      else some (st, startAuthorization env (env.slug identity.providerId) ⟨.unlink, some userId, some identity.id⟩)
  | .startUser providerSlug userId purpose =>
    if (st.auth.user userId).all (fun user => !user.isActive || user.isProtected) then
      fail st (.http (.conflict "Dieses Konto kann nicht mit SSO verknüpft werden."))
    else some (st, .startProvider providerSlug purpose)
  | .startProvider providerSlug purpose =>
    match st.auth.providers.find? fun row => env.slug row.id == providerSlug with
    | none => fail st (.http (.notFound "SSO-Anbieter nicht gefunden."))
    | some provider =>
      if provider.isActive = false then fail st (.http (.notFound "SSO-Anbieter nicht gefunden."))
      else if c.accepted = false then
        fail st (.serviceUnavailable
          "Der SSO-Anbieter erfüllt die erforderlichen OIDC-Sicherheitsmerkmale nicht.")
      else some (st, .startTx provider purpose)
  | .startTx provider purpose => startTx env st i provider purpose c
  | .consumeFind callback state browserBinding => consumeFind env st callback state browserBinding c
  | .consumeExpired requestId =>
    fail { st with requests := Rows.deleteMany (·.id == requestId) st.requests } (.login .invalidRequest false)
  | .consumeDelete k =>
    if st.requests.countP (fun r => r.id == k.request.id && decide (k.time < r.expiresAt)) ≠ 1 then
      fail st (.login .invalidRequest false)
    else
      some ({ st with
          requests := Rows.deleteMany (fun r => r.id == k.request.id && decide (k.time < r.expiresAt)) st.requests
          log := .consumed i k :: st.log },
        .grant k)
  | .grant k => grant env st k c
  | .linkTx g userId =>
    (linkTx st.auth g.request.providerId userId g.issuer g.profile.subject c.toChoice).bind fun q =>
      match q.2 with
      | .done (.ok _) => some (st.withAuth q.1 [.linked g], .done (.ok .linked))
      | .done (.error e) => loginFail st g.toConsumption (codeOf e)
      | _ => none
  | .unlinkTx g userId identityId =>
    match unlinkTx st.auth g.request.providerId userId identityId g.issuer g.profile.subject c.now with
    | .error e => loginFail st g.toConsumption (codeOf e)
    | .ok auth => some (st.withAuth auth [.unlinked g], .done (.ok .unlinked))
  | .identityFind g =>
    match st.auth.identities.find? fun row =>
        row.providerId == g.request.providerId && row.issuer == g.issuer && row.subject == g.profile.subject with
    | none =>
      if g.columns.allowJitProvisioning then some (st, .provisionRole g)
      else loginFail st g.toConsumption .accountNotLinked
    | some identity =>
      if (st.auth.user identity.userId).all (fun user => !user.isActive || user.isProtected) then
        loginFail st g.toConsumption .accountUnavailable
      else some (st, .resolveGroups g identity)
  | .provisionRole g =>
    if g.columns.defaultRoleId.all (· = "") ∨ c.accepted = false then loginFail st g.toConsumption .jitUnavailable
    else some (st, .provisionTx g (env.auth.bcrypt c.token))
  | .provisionTx g passwordHash =>
    (provisionTx env.toLowerCase st.auth g.request.providerId g.issuer g.profile passwordHash
      c.toSignInChoice).bind fun q =>
      match q.2 with
      | .auth (.done (.ok _)) =>
        let identity : ExternalIdentity := ⟨c.id, g.request.providerId, c.userId, g.issuer, g.profile.subject⟩
        some (st.withAuth q.1 [.provisioned g identity (q.1.users.drop st.auth.users.length)], .resolveGroups g identity)
      | .auth (.done (.error e)) => loginFail st g.toConsumption (codeOf e)
      | _ => none
  | .resolveGroups g identity =>
    if c.accepted then some (st, .synchronize g identity) else loginFail st g.toConsumption .groupOverageUnresolved
  | .synchronize g identity =>
    if c.accepted then some (st, .loginTx g identity) else loginFail st g.toConsumption .syncFailed
  | .loginTx g identity =>
    if (st.auth.identity identity.id).isNone then loginFail st g.toConsumption .providerUnavailable
    else if (st.log.filterMap OidcEvent.issuedHash).contains (env.auth.hashLoginCode c.token) then none
    else
      let code : OidcLoginCode :=
        ⟨env.auth.hashLoginCode c.token, env.auth.hashUserAgent g.context.userAgent, identity.userId,
          g.request.providerId,
          identity.id, c.now, c.now + 60 * 1000, none⟩
      some ({ st with
          auth := { st.auth with loginCodes := st.auth.loginCodes ++ [code] }
          log := .codeIssued g code :: st.log },
        .done (.ok (.loginCode c.token)))
  | .codeConsume code context =>
    (stmt env.auth st.auth i (.codeConsume code context) c.toChoice).map fun q =>
      match q.2 with
      | .codeUser record _ _ => (st.withAuth q.1 [.redeemed i record context c.now], .redeemed record q.2)
      | _ => (st.withAuth q.1 [], .auth q.2)
  | .redeemed record p =>
    (stmt env.auth st.auth i p c.toChoice).map fun q =>
      (st.withAuth q.1
        ((q.1.log.take (q.1.log.length - st.auth.log.length)).filterMap Event.session |>.map (.signedIn record)),
        .redeemed record q.2)
  | .done _ => none

end Statements

/-! ## The system -/

abbrev OidcSys := Interleave.Sys OidcStore OidcPoint

abbrev OidcLabel := Interleave.Label OidcCall OidcChoice

abbrev oidcStep (env : Env) : OidcSys → OidcLabel → Option OidcSys := Interleave.step (oidcEntry env) (oidcStmt env)

def oidcInit (setup : Setup) : OidcSys := ⟨⟨(init setup).store, [], []⟩, []⟩

end AdWiki.Auth.Oidc
