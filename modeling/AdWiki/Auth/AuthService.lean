import AdWiki.Auth.Session
import AdWiki.Common.JsString
import AdWiki.Lib.Interleave

/-!
# Sessions and external logins

`AuthService` (login, refresh, logout, password change and reset) with the parts of `OidcService` and
`IdentityProviderAdminService` that write the rows a session depends on. One program point stands for each statement
or `$transaction` block, so calls interleave between transactions; a transaction is atomic. Foreign-key actions of the
schema are part of the deleting statement.

`Store.log` is not part of the services: it records what has happened, newest first.
-/

namespace AdWiki.Auth

/-! ## Values from outside -/

/-- Platform functions and the service's settings. `verify` is the signature and expiry check of a token at a time,
`refreshExpiryDate` the expiry of a signed token at the time it is stored. -/
structure Env where
  verify : Time → String → Option JwtPayload
  hashRefreshToken : String → String
  hashResetToken : String → String
  hashLoginCode : String → String
  hashUserAgent : Option String → String
  compare : String → String → Bool
  bcrypt : String → String
  refreshExpiryDate : String → Time → Time
  resetTtlMinutes : Nat
  identitySync : Bool

/-! ## Tables -/

structure User where
  id : String
  email : String
  password : String
  isActive : Bool
  isProtected : Bool
  hasLocalPassword : Bool
  deriving DecidableEq

structure IdentityProvider where
  id : String
  name : String
  isActive : Bool
  maxSessionAgeMinutes : Nat
  deriving DecidableEq

structure ExternalIdentity where
  id : String
  providerId : String
  userId : String
  issuer : String
  subject : String
  deriving DecidableEq

structure OidcLoginCode where
  tokenHash : String
  userAgentHash : String
  userId : String
  providerId : String
  externalIdentityId : String
  createdAt : Time
  expiresAt : Time
  usedAt : Option Time
  deriving DecidableEq

structure PasswordResetToken where
  tokenHash : String
  userId : String
  expiresAt : Time
  usedAt : Option Time
  deriving DecidableEq

inductive Event
  | linked (identity : ExternalIdentity)
  | loggedIn (session : Session) (providerId : Option String)
  | rotated (session replacement : Session)
  | reused (familyId : String)
  | loggedOut (tokenHash : String)
  | passwordChanged (userId : String)
  deriving DecidableEq

structure Store where
  users : List User
  localLoginEnabled : String
  providers : List IdentityProvider
  identities : List ExternalIdentity
  loginCodes : List OidcLoginCode
  resetTokens : List PasswordResetToken
  sessions : List Session
  log : List Event

def Store.user (st : Store) (id : String) : Option User := st.users.find? (·.id == id)

def Store.provider (st : Store) (id : String) : Option IdentityProvider := st.providers.find? (·.id == id)

def Store.identity (st : Store) (id : String) : Option ExternalIdentity := st.identities.find? (·.id == id)

def Store.session (st : Store) (tokenHash : String) : Option Session := st.sessions.find? (·.tokenHash == tokenHash)

/-- `session.externalIdentity?.provider.isActive`. -/
def Store.providerActive (st : Store) (session : Session) : Bool :=
  ((session.externalIdentityId.bind st.identity).bind fun identity => st.provider identity.providerId).any (·.isActive)

/-! ## Calls -/

inductive Answer
  | tokens (refreshToken : String)
  | loginCode (code : String)
  | removed (id name : String)
  | empty
  deriving DecidableEq

inductive Call
  | login (email password : String) (context : RequestContext)
  | exchangeLoginCode (code : String) (context : RequestContext)
  | refreshToken (token : String) (context : RequestContext)
  | logout (token : String)
  | changePassword (userId currentPassword newPassword : String)
  | requestPasswordReset (email : String)
  | resetPassword (token newPassword : String)
  | completeLogin (providerId issuer subject : String) (context : RequestContext)
  | linkIdentity (providerId userId issuer subject : String)
  | unlinkIdentity (providerId userId identityId issuer subject : String)
  | updateProvider (id : String) (isActive : Option Bool) (maxSessionAgeMinutes : Option Nat) (confirm : Bool)
  | removeProvider (id : String) (confirm : Bool)

/-- The next statement or transaction of a call, with what the call has in hand. The provider id beside the external
context of `issueTokens` is for the record only. -/
inductive Point
  | loginFind (email password : String) (context : RequestContext)
  | issueTokens (userId : String) (context : RequestContext) (external : Option (ExternalSessionContext × String))
  | codeConsume (code : String) (context : RequestContext)
  | codeUser (record : OidcLoginCode) (maxSessionAgeMinutes : Nat) (context : RequestContext)
  | refreshVerify (token : String) (context : RequestContext)
  | refreshCandidate (payload : JwtPayload) (tokenHash : String) (now : Time) (context : RequestContext)
  | refreshSync (payload : JwtPayload) (tokenHash : String) (now : Time) (context : RequestContext)
  | refreshTx (payload : JwtPayload) (tokenHash : String) (now : Time) (context : RequestContext)
  | logoutFind (tokenHash : String)
  | logoutRevoke (tokenHash familyId : String)
  | changeFind (userId currentPassword newPassword : String)
  | changeTx (userId passwordHash : String)
  | requestFind (email : String)
  | requestTx (userId : String)
  | resetFind (tokenHash newPassword : String)
  | resetTx (reset : PasswordResetToken) (now : Time) (passwordHash : String)
  | loginCodeFind (providerId issuer subject : String) (context : RequestContext)
  | loginCodeTx (identity : ExternalIdentity) (context : RequestContext)
  | linkTx (providerId userId issuer subject : String)
  | unlinkTx (providerId userId identityId issuer subject : String)
  | updateFind (id : String) (isActive : Option Bool) (maxSessionAgeMinutes : Option Nat) (confirm : Bool)
  | updateCount (id : String) (isActive : Option Bool) (maxSessionAgeMinutes : Option Nat)
  | updateWrite (id : String) (isActive : Option Bool) (maxSessionAgeMinutes : Option Nat)
  | removeFind (id : String) (confirm : Bool)
  | removeCount (provider : IdentityProvider)
  | removeDelete (provider : IdentityProvider)
  | done (result : Except HttpError Answer)

def entry (env : Env) : Call → Point
  | .login email password context => .loginFind email password context
  | .exchangeLoginCode code context => .codeConsume code context
  | .refreshToken token context => .refreshVerify token context
  | .logout token => .logoutFind (env.hashRefreshToken token)
  | .changePassword userId currentPassword newPassword => .changeFind userId currentPassword newPassword
  | .requestPasswordReset email => .requestFind email
  | .resetPassword token newPassword => .resetFind (env.hashResetToken token) newPassword
  | .completeLogin providerId issuer subject context => .loginCodeFind providerId issuer subject context
  | .linkIdentity providerId userId issuer subject => .linkTx providerId userId issuer subject
  | .unlinkIdentity providerId userId identityId issuer subject =>
    .unlinkTx providerId userId identityId issuer subject
  | .updateProvider id isActive maxSessionAgeMinutes confirm => .updateFind id isActive maxSessionAgeMinutes confirm
  | .removeProvider id confirm => .removeFind id confirm

/-- The clock reading, the fresh values and the outcome of the work outside this model that a statement uses:
`accepted` says whether the identity synchronisation, or a check on fields that are not modelled, went through. -/
structure Choice where
  now : Time
  id : String
  token : String
  accepted : Bool

/-! ## Statements -/

def sessionRefused : HttpError := .unauthorized "Sitzung ist ungültig oder abgelaufen."

def tokenRefused : HttpError := .unauthorized "Refresh-Token ist ungültig oder abgelaufen."

def Event.session : Event → Option Session
  | .loggedIn session _ => some session
  | .rotated _ replacement => some replacement
  | _ => none

def Event.identityId : Event → Option String
  | .linked identity => some identity.id
  | _ => none

/-- The sessions ever created. -/
def Store.issued (st : Store) : List Session := st.log.filterMap Event.session

/-- A session id and a token hash that no session ever had. -/
def Store.fresh (st : Store) (id tokenHash : String) : Bool :=
  st.issued.all fun session => session.id != id && session.tokenHash != tokenHash

section Statements

variable (env : Env)

def refused (st : Store) (e : HttpError) : Option (Store × Point) := some (st, .done (.error e))

/-- The candidate for a synchronisation before the transaction. -/
def synchronizes (st : Store) (payload : JwtPayload) (tokenHash : String) (now : Time) : Bool :=
  (st.session tokenHash).any fun candidate =>
    candidate.externalIdentityId.isSome && candidate.userId == payload.userId &&
      (payload.tokenId.isNone || payload.tokenId == some candidate.id) && decide (now < candidate.expiresAt) &&
      candidate.revokedAt.isNone && candidate.rotatedAt.isNone && candidate.providerRecheckAfter.any (now < ·) &&
      st.providerActive candidate

def revokeFamily (st : Store) (familyId : String) (now : Time) : Store :=
  { st with sessions := Rows.updateMany (Session.liveIn familyId) (Session.revoke now) st.sessions }

/-- The transaction of `refreshToken`. -/
def refreshTx (st : Store) (payload : JwtPayload) (tokenHash : String) (now : Time) (context : RequestContext)
    (c : Choice) : Option (Store × Point) :=
  match st.session tokenHash with
  | none => refused st sessionRefused
  | some session =>
    if session.refused payload now (st.providerActive session) then refused st sessionRefused
    else if session.rotatedAt.isSome then
      refused { revokeFamily st session.familyId now with log := .reused session.familyId :: st.log } sessionRefused
    else if session.revokedAt.isSome ∨ (st.user session.userId).all (!·.isActive) then refused st sessionRefused
    else if st.sessions.countP (Session.consumable session.id now) ≠ 1 then
      if (st.sessions.find? (·.id == session.id)).any (·.rotatedAt.isSome) then
        refused { revokeFamily st session.familyId now with log := .reused session.familyId :: st.log } sessionRefused
      else refused st sessionRefused
    else if st.fresh c.id (env.hashRefreshToken c.token) then
      let replacement := session.replacement context c.id (env.hashRefreshToken c.token)
        (env.refreshExpiryDate c.token c.now)
      some ({ st with
          sessions :=
            Rows.updateMany (Session.consumable session.id now) (Session.consume now) st.sessions ++ [replacement]
          log := .rotated session replacement :: st.log },
        .done (.ok (.tokens c.token)))
    else none

/-- The writes that a password change and a reset have in common. -/
def setPassword (st : Store) (userId passwordHash : String) (now : Time) : Store :=
  { st with
    users := Rows.updateMany (·.id == userId)
      (fun user => { user with password := passwordHash, hasLocalPassword := true }) st.users
    sessions := Rows.deleteMany (·.userId == userId) st.sessions
    resetTokens := Rows.updateMany (fun row => row.userId == userId && row.usedAt.isNone)
      (fun row => { row with usedAt := some now }) st.resetTokens
    log := .passwordChanged userId :: st.log }

/-- `DELETE` of identities, with `Cascade` on login codes and `SetNull` on sessions. -/
def deleteIdentities (st : Store) (p : ExternalIdentity → Bool) : Store :=
  let gone (id : String) : Bool := st.identities.any fun identity => p identity && identity.id == id
  { st with
    identities := Rows.deleteMany p st.identities
    loginCodes := Rows.deleteMany (fun code => gone code.externalIdentityId) st.loginCodes
    sessions := Rows.updateMany (fun session => session.externalIdentityId.any gone) Session.detach st.sessions }

/-- The checks and the deletion of `unlinkIdentity`. -/
def unlinkTx (st : Store) (providerId userId identityId issuer subject : String) (now : Time) :
    Except HttpError Store :=
  match st.identities.find? fun row => row.id == identityId && row.userId == userId && row.providerId == providerId with
  | none => .error (.oidc "account_conflict")
  | some identity =>
    if identity.issuer ≠ issuer ∨ identity.subject ≠ subject ∨ (st.user userId).all (·.isProtected) then
      .error (.oidc "account_conflict")
    else if (st.user userId).all (!·.hasLocalPassword) ∧ st.identities.countP (·.userId == userId) ≤ 1 then
      .error (.oidc "account_conflict")
    else
      .ok (deleteIdentities
        { st with
          sessions := Rows.updateMany
            (fun session => session.externalIdentityId == some identity.id && session.revokedAt.isNone)
            (Session.revoke now) st.sessions }
        (·.id == identity.id))

/-- The checks and the write of `linkIdentity`; the profile columns are not modelled. -/
def linkTx (st : Store) (providerId userId issuer subject : String) (c : Choice) : Option (Store × Point) :=
  if (st.user userId).all (fun user => !user.isActive || user.isProtected) then
    refused st (.oidc "account_unavailable")
  else
    match st.identities.find? fun row => row.providerId == providerId && row.issuer == issuer &&
      row.subject == subject with
    | some claimed =>
      if claimed.userId ≠ userId then refused st (.oidc "account_conflict") else some (st, .done (.ok .empty))
    | none =>
      if st.identities.any (fun row => row.providerId == providerId && row.userId == userId) then
        refused st (.oidc "account_conflict")
      else if (st.provider providerId).isNone then refused st .foreignKey
      else if (st.log.filterMap Event.identityId).contains c.id then none
      else
        let identity : ExternalIdentity := ⟨c.id, providerId, userId, issuer, subject⟩
        some ({ st with identities := st.identities ++ [identity], log := .linked identity :: st.log },
          .done (.ok .empty))

/-- One statement or transaction of a call. -/
def stmt (st : Store) (_ : Nat) (p : Point) (c : Choice) : Option (Store × Point) :=
  match p with
  | .loginFind email password context =>
    match st.users.find? (·.email == email) with
    | none => refused st (.unauthorized "E-Mail oder Passwort ist falsch.")
    | some user =>
      if env.compare password user.password = false then
        refused st (.unauthorized "E-Mail oder Passwort ist falsch.")
      else if user.isActive = false then refused st (.unauthorized "Dieser Account ist deaktiviert.")
      else if st.localLoginEnabled ≠ "true" ∧ user.isProtected = false then
        refused st (.unauthorized "Die lokale Anmeldung ist für dieses Konto deaktiviert.")
      else some (st, .issueTokens user.id context none)
  | .issueTokens userId context external =>
    if st.fresh c.id (env.hashRefreshToken c.token) = false then none
    else if (st.user userId).isNone then refused st .foreignKey
    else if external.any (fun e => (st.identity e.1.externalIdentityId).isNone) then refused st .foreignKey
    else
      let session := Session.login userId context (external.map Prod.fst) c.id (env.hashRefreshToken c.token)
        (env.refreshExpiryDate c.token c.now)
      some ({ st with
          sessions := st.sessions ++ [session]
          log := .loggedIn session (external.map Prod.snd) :: st.log },
        .done (.ok (.tokens c.token)))
  | .codeConsume code context =>
    match st.loginCodes.find? (·.tokenHash == env.hashLoginCode code) with
    | none => refused st (.unauthorized "Der SSO-Anmeldecode ist ungültig oder abgelaufen.")
    | some record =>
      if record.usedAt.isSome ∨ record.expiresAt ≤ c.now ∨ (st.user record.userId).all (!·.isActive) ∨
          record.userAgentHash ≠ env.hashUserAgent context.userAgent then
        refused st (.unauthorized "Der SSO-Anmeldecode ist ungültig oder abgelaufen.")
      else
        match st.provider record.providerId with
        | none => refused st (.unauthorized "Der SSO-Anmeldecode ist ungültig oder abgelaufen.")
        | some provider =>
          some ({ st with
              loginCodes := Rows.updateMany (fun row => row.tokenHash == record.tokenHash && row.usedAt.isNone)
                (fun row => { row with usedAt := some c.now }) st.loginCodes },
            .codeUser record provider.maxSessionAgeMinutes context)
  | .codeUser record maxSessionAgeMinutes context =>
    if (st.user record.userId).all (!·.isActive) then refused st (.unauthorized "Dieser Account ist nicht verfügbar.")
    else
      some (st, .issueTokens record.userId context
        (some (⟨record.externalIdentityId, record.createdAt, record.createdAt + maxSessionAgeMinutes * 60000⟩,
          record.providerId)))
  | .refreshVerify token context =>
    match env.verify c.now token with
    | none => refused st tokenRefused
    | some payload =>
      if payload.tokenType = some .access then refused st tokenRefused
      else if env.identitySync then
        some (st, .refreshCandidate payload (env.hashRefreshToken token) c.now context)
      else some (st, .refreshTx payload (env.hashRefreshToken token) c.now context)
  | .refreshCandidate payload tokenHash now context =>
    if synchronizes st payload tokenHash now then some (st, .refreshSync payload tokenHash now context)
    else some (st, .refreshTx payload tokenHash now context)
  | .refreshSync payload tokenHash now context =>
    if c.accepted then some (st, .refreshTx payload tokenHash now context)
    else
      refused st (.unauthorized
        "Die SSO-Berechtigungen konnten nicht aktualisiert werden. Bitte erneut anmelden.")
  | .refreshTx payload tokenHash now context => refreshTx env st payload tokenHash now context c
  | .logoutFind tokenHash =>
    match st.session tokenHash with
    | none => some ({ st with log := .loggedOut tokenHash :: st.log }, .done (.ok .empty))
    | some session => some (st, .logoutRevoke tokenHash session.familyId)
  | .logoutRevoke tokenHash familyId =>
    some ({ revokeFamily st familyId c.now with log := .loggedOut tokenHash :: st.log }, .done (.ok .empty))
  | .changeFind userId currentPassword newPassword =>
    match st.user userId with
    | none => refused st (.unauthorized "Benutzer nicht gefunden.")
    | some user =>
      if env.compare currentPassword user.password = false then
        refused st (.unauthorized "Das aktuelle Passwort ist falsch.")
      else some (st, .changeTx userId (env.bcrypt newPassword))
  | .changeTx userId passwordHash =>
    if (st.user userId).isNone then refused st .recordNotFound
    else some (setPassword st userId passwordHash c.now, .done (.ok .empty))
  | .requestFind email =>
    match st.users.find? (·.email == email) with
    | none => some (st, .done (.ok .empty))
    | some user => if user.isActive then some (st, .requestTx user.id) else some (st, .done (.ok .empty))
  | .requestTx userId =>
    if (st.user userId).isNone then refused st .foreignKey
    else
      some ({ st with
          resetTokens := Rows.updateMany (fun row => row.userId == userId && row.usedAt.isNone)
            (fun row => { row with usedAt := some c.now }) st.resetTokens ++
              [⟨env.hashResetToken c.token, userId, c.now + env.resetTtlMinutes * 60000, none⟩] },
        .done (.ok .empty))
  | .resetFind tokenHash newPassword =>
    match st.resetTokens.find? (·.tokenHash == tokenHash) with
    | none => refused st (.badRequest "Der Reset-Link ist ungültig oder abgelaufen.")
    | some reset =>
      if reset.usedAt.isSome ∨ reset.expiresAt ≤ c.now ∨ (st.user reset.userId).all (!·.isActive) then
        refused st (.badRequest "Der Reset-Link ist ungültig oder abgelaufen.")
      else some (st, .resetTx reset c.now (env.bcrypt newPassword))
  | .resetTx reset now passwordHash =>
    if st.resetTokens.countP (fun row => row.tokenHash == reset.tokenHash && row.usedAt.isNone &&
        decide (now < row.expiresAt)) ≠ 1 then
      refused st (.badRequest "Der Reset-Link ist ungültig oder wurde bereits verwendet.")
    else if (st.user reset.userId).isNone then refused st .recordNotFound
    else some (setPassword st reset.userId passwordHash now, .done (.ok .empty))
  | .loginCodeFind providerId issuer subject context =>
    match st.identities.find? fun row => row.providerId == providerId && row.issuer == issuer &&
      row.subject == subject with
    | none => refused st (.oidc "account_not_linked")
    | some identity =>
      if (st.user identity.userId).all (fun user => !user.isActive || user.isProtected) then
        refused st (.oidc "account_unavailable")
      else if c.accepted = false then refused st (.oidc "sync_failed")
      else some (st, .loginCodeTx identity context)
  | .loginCodeTx identity context =>
    if (st.identity identity.id).isNone then refused st (.oidc "provider_unavailable")
    else
      some ({ st with
          loginCodes := st.loginCodes ++
            [⟨env.hashLoginCode c.token, env.hashUserAgent context.userAgent, identity.userId, identity.providerId,
              identity.id, c.now, c.now + 60 * 1000, none⟩] },
        .done (.ok (.loginCode c.token)))
  | .linkTx providerId userId issuer subject => linkTx st providerId userId issuer subject c
  | .unlinkTx providerId userId identityId issuer subject =>
    match unlinkTx st providerId userId identityId issuer subject c.now with
    | .error e => refused st e
    | .ok st' => some (st', .done (.ok .empty))
  | .updateFind id isActive maxSessionAgeMinutes confirm =>
    match st.provider id with
    | none => refused st (.notFound "SSO-Anbieter nicht gefunden.")
    | some current =>
      if c.accepted = false then refused st (.badRequest "Die Eingabe ist ungültig.")
      else if current.isActive ∧ isActive = some false ∧ confirm = false then
        some (st, .updateCount id isActive maxSessionAgeMinutes)
      else some (st, .updateWrite id isActive maxSessionAgeMinutes)
  | .updateCount id isActive maxSessionAgeMinutes =>
    if st.providers.countP (·.isActive) = 1 then
      refused st (.conflict "Der letzte aktive SSO-Anbieter muss ausdrücklich bestätigt werden.")
    else some (st, .updateWrite id isActive maxSessionAgeMinutes)
  | .updateWrite id isActive maxSessionAgeMinutes =>
    if (st.provider id).isNone then refused st .recordNotFound
    else
      some ({ st with
          providers := Rows.updateMany (·.id == id)
            (fun row => { row with
              isActive := isActive.getD row.isActive
              maxSessionAgeMinutes := maxSessionAgeMinutes.getD row.maxSessionAgeMinutes }) st.providers },
        .done (.ok .empty))
  | .removeFind id confirm =>
    match st.provider id with
    | none => refused st (.notFound "SSO-Anbieter nicht gefunden.")
    | some provider =>
      if provider.isActive ∧ confirm = false then some (st, .removeCount provider)
      else some (st, .removeDelete provider)
  | .removeCount provider =>
    if st.providers.countP (·.isActive) = 1 then
      refused st (.conflict "Das Löschen des letzten aktiven SSO-Anbieters muss ausdrücklich bestätigt werden.")
    else some (st, .removeDelete provider)
  | .removeDelete provider =>
    if (st.provider provider.id).isNone then refused st .recordNotFound
    else
      some ({ deleteIdentities st (·.providerId == provider.id) with
          providers := Rows.deleteMany (·.id == provider.id) st.providers },
        .done (.ok (.removed provider.id provider.name)))
  | .done _ => none

end Statements

/-! ## The system -/

abbrev Sys := Interleave.Sys Store Point

abbrev Label := Interleave.Label Call Choice

abbrev step (env : Env) : Sys → Label → Option Sys := Interleave.step (entry env) (stmt env)

/-- The installation before the first session: any users, providers and identities with unique ids. -/
structure Setup where
  users : List User
  localLoginEnabled : String
  providers : List IdentityProvider
  identities : List ExternalIdentity
  identityIds : (identities.map ExternalIdentity.id).Nodup

def init (setup : Setup) : Sys where
  store :=
    { users := setup.users
      localLoginEnabled := setup.localLoginEnabled
      providers := setup.providers
      identities := setup.identities
      loginCodes := []
      resetTokens := []
      sessions := []
      log := setup.identities.map .linked }
  calls := []

end AdWiki.Auth
