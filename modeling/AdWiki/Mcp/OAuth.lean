import AdWiki.Common.JsString
import AdWiki.Common.Http
import AdWiki.Lib.Rows
import AdWiki.Lib.Interleave

/-!
# The MCP authorization server

The service `McpOAuthService` with one program point for each statement it sends to the data store, so that any
number of its calls can be interleaved statement by statement. `$transaction` blocks are one statement
(`approveTx`). The rows carry the columns of the schema; `id` columns that no statement answers are left out where a
unique hash column names the row as well (`codeHash`, `tokenHash`).

`Store.log` is not part of the service: it records what has happened, newest first, so that statements about whole
runs can be read off a state.
-/

namespace AdWiki.Mcp

/-! ## Values from outside -/

/-- A field of a request body, whose type is not checked yet. -/
inductive FieldValue
  | undefined
  | null
  | str (s : String)
  | other
  deriving DecidableEq

abbrev Body := String → FieldValue

/-- `McpProductionConfig`, as far as the authorization server reads it. -/
structure McpProductionConfig where
  resource : String
  authorizationRequestTtlSeconds : Nat
  authorizationCodeTtlSeconds : Nat
  accessTokenTtlSeconds : Nat
  refreshTokenTtlSeconds : Nat

/-- Platform functions: SHA-256 in hex, SHA-256 of a verifier in base64url, and `canonical(new URL(value))`, which
has no value where the URL does not parse. -/
structure Env where
  hash : String → String
  s256 : String → String
  canonical : String → Option String
  config : McpProductionConfig

def MCP_OAUTH_SCOPES : List String := ["mcp:read", "mcp:write"]

/-- How a call ends without a result. -/
inductive Failure
  | oauth (code message : String) (status : Nat)
  | notFound (message : String)
  | recordNotFound
  | invalidUrl
  deriving DecidableEq

abbrev oauthError (code message : String) : Failure := .oauth code message 400

def requiredString (value : FieldValue) (name : String) : Except Failure String :=
  match value with
  | .str s =>
    if Js.trim s = "" ∨ 4096 < Js.length s then
      .error (oauthError "invalid_request" (name ++ " fehlt oder ist ungültig."))
    else .ok (Js.trim s)
  | _ => .error (oauthError "invalid_request" (name ++ " fehlt oder ist ungültig."))

def optionalString (value : FieldValue) (name : String) (max : Nat) : Except Failure (Option String) :=
  match value with
  | .undefined => .ok none
  | .null => .ok none
  | .str s =>
    if s = "" then .ok none
    else if max < Js.length s then .error (oauthError "invalid_request" (name ++ " ist ungültig."))
    else .ok (some s)
  | .other => .error (oauthError "invalid_request" (name ++ " ist ungültig."))

def parseScopes (value : String) : Except Failure (List String) :=
  let scopes := Js.distinct (Js.words value)
  if "mcp:read" ∉ scopes ∨ scopes.any (fun scope => scope ∉ MCP_OAUTH_SCOPES) then
    .error (oauthError "invalid_scope" "Erlaubt sind mcp:read und optional mcp:write.")
  else .ok scopes

/-- `[A-Za-z0-9_-]`. -/
def isChallengeChar (c : Char) : Bool := c.isAlphanum || c == '_' || c == '-'

/-- `/^[A-Za-z0-9_-]{43,128}$/`. -/
def isCodeChallenge (s : String) : Bool :=
  s.toList.all isChallengeChar && 43 ≤ s.toList.length && s.toList.length ≤ 128

/-- `/^[A-Za-z0-9._~-]{43,128}$/`. -/
def isCodeVerifier (s : String) : Bool :=
  s.toList.all (fun c => isChallengeChar c || c == '.' || c == '~') && 43 ≤ s.toList.length && s.toList.length ≤ 128

/-! ## Tables -/

structure Client where
  clientId : String
  redirectUris : List String
  deriving DecidableEq

structure AuthorizationRequest where
  id : String
  clientId : String
  redirectUri : String
  state : Option String
  codeChallenge : String
  resource : String
  scopes : List String
  expiresAt : Time
  deriving DecidableEq

structure AuthorizationCode where
  codeHash : String
  clientId : String
  userId : String
  redirectUri : String
  codeChallenge : String
  resource : String
  scopes : List String
  expiresAt : Time
  usedAt : Option Time
  deriving DecidableEq

structure RefreshToken where
  tokenHash : String
  familyId : String
  clientId : String
  userId : String
  resource : String
  scopes : List String
  expiresAt : Time
  revokedAt : Option Time
  rotatedAt : Option Time
  deriving DecidableEq

structure AccessToken where
  tokenHash : String
  userId : String
  oauthClientId : Option String
  resource : String
  requestedScopes : List String
  expiresAt : Time
  revokedAt : Option Time
  deriving DecidableEq

/-- What `issueTokens` is called with. -/
structure Grant where
  userId : String
  clientId : String
  resource : String
  scopes : List String
  familyId : String
  deriving DecidableEq

inductive Event
  | requested (request : AuthorizationRequest)
  | approved (call : Nat) (userId : String) (request : AuthorizationRequest) (code : AuthorizationCode)
  | claimed (codeHash : String) (body : Body) (time : Time) (familyId : String)
  | rotated (tokenHash : String)
  | issued (access : AccessToken) (refresh : RefreshToken)
  | reused (familyId : String)

structure Store where
  clients : List Client
  requests : List AuthorizationRequest
  codes : List AuthorizationCode
  refreshTokens : List RefreshToken
  accessTokens : List AccessToken
  log : List Event

def Store.client (st : Store) (clientId : String) : Option Client :=
  st.clients.find? (·.clientId == clientId)

def Store.request (st : Store) (id : String) : Option AuthorizationRequest :=
  st.requests.find? (·.id == id)

def Store.code (st : Store) (codeHash : String) : Option AuthorizationCode :=
  st.codes.find? (·.codeHash == codeHash)

def Store.refreshToken (st : Store) (tokenHash : String) : Option RefreshToken :=
  st.refreshTokens.find? (·.tokenHash == tokenHash)

/-! ## Calls -/

/-- What a finished call returned: a redirect with its query parameters, a token pair, or nothing. -/
inductive Answer
  | redirect (uri : String) (params : List (String × Option String))
  | tokens (accessToken refreshToken : String) (expiresIn : Nat) (scope : String)
  | empty
  deriving DecidableEq

/-- A call: of a client, of the user who decides on a request, or of the clean-up job on one table. -/
inductive Call
  | startAuthorization (query : Body)
  | approve (id userId : String)
  | deny (id : String)
  | exchange (body : Body)
  | revoke (body : Body)
  | cleanupRequests
  | cleanupCodes
  | cleanupRefreshTokens
  | cleanupAccessTokens

/-- The next statement of a call, with what the call has in hand. -/
inductive Point
  | authorizeClient (query : Body)
  | authorizeCreate (clientId redirectUri : String) (state : Option String) (codeChallenge : String)
      (scopes : List String)
  | approveFind (id userId : String)
  | approveTx (request : AuthorizationRequest) (userId : String)
  | denyFind (id : String)
  | denyDelete (request : AuthorizationRequest)
  | exchangeBegin (body : Body)
  | codeFind (body : Body) (code clientId redirectUri verifier resource : String)
  | codeClaim (body : Body) (record : AuthorizationCode) (time : Time)
  | codeTouchClient (grant : Grant)
  | refreshFind (token clientId : String) (requestedResource : Option String)
  | refreshReuse (familyId : String)
  | refreshRotate (record : RefreshToken)
  | issueAccess (grant : Grant)
  | issueRefresh (grant : Grant) (accessToken : String) (access : AccessToken)
  | revokeFind (token : String) (clientId : Option String)
  | revokeRefresh (record : RefreshToken)
  | revokeAccess (tokenHash : String) (clientId : Option String)
  | cleanupRequests
  | cleanupCodes
  | cleanupRefreshTokens
  | cleanupAccessTokens
  | done (result : Except Failure Answer)

/-- `exchange` checks its body before the first statement, as `revoke` does. -/
def entry : Call → Point
  | .startAuthorization query => .authorizeClient query
  | .approve id userId => .approveFind id userId
  | .deny id => .denyFind id
  | .exchange body => .exchangeBegin body
  | .revoke body =>
    match requiredString (body "token") "token", optionalString (body "client_id") "client_id" 200 with
    | .ok token, .ok clientId => .revokeFind token clientId
    | .error e, _ => .done (.error e)
    | _, .error e => .done (.error e)
  | .cleanupRequests => .cleanupRequests
  | .cleanupCodes => .cleanupCodes
  | .cleanupRefreshTokens => .cleanupRefreshTokens
  | .cleanupAccessTokens => .cleanupAccessTokens

/-- The clock reading and the random value that a statement uses. -/
structure Choice where
  now : Time
  random : String

/-- The checks of `startAuthorization`, up to the statement that creates the request. -/
def authorizationChecks (env : Env) (st : Store) (query : Body) : Except Failure Point := do
  let responseType ← requiredString (query "response_type") "response_type"
  let clientId ← requiredString (query "client_id") "client_id"
  let redirectUri ← requiredString (query "redirect_uri") "redirect_uri"
  let codeChallenge ← requiredString (query "code_challenge") "code_challenge"
  let challengeMethod ← requiredString (query "code_challenge_method") "code_challenge_method"
  let resource ← requiredString (query "resource") "resource"
  let state ← optionalString (query "state") "state" 1024
  if responseType ≠ "code" ∨ challengeMethod ≠ "S256" ∨ isCodeChallenge codeChallenge = false then
    .error (oauthError "invalid_request" "OAuth 2.1 erfordert response_type=code und PKCE S256.")
  else
    match env.canonical resource with
    | none => .error .invalidUrl
    | some url =>
      if url ≠ env.config.resource then
        .error (oauthError "invalid_target" "Der resource-Parameter gehört nicht zu diesem MCP-Server.")
      else
        match st.client clientId with
        | none => .error (.oauth "invalid_client" "Client oder Redirect-URI ist ungültig." 401)
        | some client =>
          if redirectUri ∉ client.redirectUris then
            .error (.oauth "invalid_client" "Client oder Redirect-URI ist ungültig." 401)
          else do
            let scope ← optionalString (query "scope") "scope" 500
            let scopes ← parseScopes (scope.getD "mcp:read")
            pure (.authorizeCreate clientId redirectUri state codeChallenge scopes)

/-- The parameters of `exchangeCode` and of `exchangeRefreshToken`, read from the body. -/
def exchangeParameters (body : Body) : Except Failure Point := do
  let grantType ← requiredString (body "grant_type") "grant_type"
  if grantType = "authorization_code" then do
    let code ← requiredString (body "code") "code"
    let clientId ← requiredString (body "client_id") "client_id"
    let redirectUri ← requiredString (body "redirect_uri") "redirect_uri"
    let verifier ← requiredString (body "code_verifier") "code_verifier"
    let resource ← requiredString (body "resource") "resource"
    if isCodeVerifier verifier = false then
      .error (oauthError "invalid_grant" "Der PKCE code_verifier ist ungültig.")
    else pure (.codeFind body code clientId redirectUri verifier resource)
  else if grantType = "refresh_token" then do
    let token ← requiredString (body "refresh_token") "refresh_token"
    let clientId ← requiredString (body "client_id") "client_id"
    let requestedResource ← optionalString (body "resource") "resource" 4096
    pure (.refreshFind token clientId requestedResource)
  else .error (oauthError "unsupported_grant_type" "Der grant_type wird nicht unterstützt.")

/-- `pkceMatches`. -/
def pkceMatches (env : Env) (verifier expected : String) : Bool := env.s256 verifier == expected

/-- `matchesBoundResource`: the resource is optional, and an unparsable one does not match. -/
def matchesBoundResource (env : Env) (requested : Option String) (bound : String) : Bool :=
  match requested with
  | none => true
  | some value => env.canonical value == some bound

/-- The row checks of `exchangeCode`. -/
def codeUsable (env : Env) (record : AuthorizationCode) (clientId redirectUri verifier resource : String)
    (now : Time) : Except Failure Unit :=
  if record.usedAt.isSome ∨ record.expiresAt ≤ now ∨ record.clientId ≠ clientId ∨ record.redirectUri ≠ redirectUri then
    .error (oauthError "invalid_grant" "Autorisierungscode oder PKCE-Prüfung ist ungültig.")
  else
    match env.canonical resource with
    | none => .error .invalidUrl
    | some url =>
      if url ≠ record.resource ∨ pkceMatches env verifier record.codeChallenge = false then
        .error (oauthError "invalid_grant" "Autorisierungscode oder PKCE-Prüfung ist ungültig.")
      else .ok ()

/-- The row checks of `exchangeRefreshToken`, after the reuse check. -/
def refreshUsable (env : Env) (record : RefreshToken) (clientId : String) (requestedResource : Option String)
    (now : Time) : Bool :=
  record.revokedAt.isNone && now < record.expiresAt && record.clientId == clientId &&
    matchesBoundResource env requestedResource record.resource

def reuseMessage : String :=
  "Wiederverwendung eines rotierten Refresh-Tokens erkannt; die Token-Familie wurde widerrufen."

/-! ## Statements -/

section Statements

variable (env : Env)

def grantOfCode (record : AuthorizationCode) (familyId : String) : Grant :=
  ⟨record.userId, record.clientId, record.resource, record.scopes, familyId⟩

def grantOfRefresh (record : RefreshToken) : Grant :=
  ⟨record.userId, record.clientId, record.resource, record.scopes, record.familyId⟩

def failed (st : Store) (code message : String) : Option (Store × Point) :=
  some (st, .done (.error (oauthError code message)))

/-- `WHERE token_hash = … AND revoked_at IS NULL AND rotated_at IS NULL`. -/
def rotatable (record row : RefreshToken) : Bool :=
  row.tokenHash == record.tokenHash && row.revokedAt.isNone && row.rotatedAt.isNone

/-- `WHERE family_id = … AND revoked_at IS NULL`. -/
def liveIn (familyId : String) (row : RefreshToken) : Bool := row.familyId == familyId && row.revokedAt.isNone

/-- `WHERE code_hash = … AND used_at IS NULL`. -/
def unused (record row : AuthorizationCode) : Bool := row.codeHash == record.codeHash && row.usedAt.isNone

def RefreshToken.rotate (now : Time) (row : RefreshToken) : RefreshToken :=
  { row with rotatedAt := some now, revokedAt := some now }

def RefreshToken.revoke (now : Time) (row : RefreshToken) : RefreshToken := { row with revokedAt := some now }

def AuthorizationCode.use (now : Time) (row : AuthorizationCode) : AuthorizationCode := { row with usedAt := some now }

def newRequest (clientId redirectUri : String) (state : Option String) (codeChallenge : String) (scopes : List String)
    (c : Choice) : AuthorizationRequest where
  id := c.random
  clientId := clientId
  redirectUri := redirectUri
  state := state
  codeChallenge := codeChallenge
  resource := env.config.resource
  scopes := scopes
  expiresAt := c.now + env.config.authorizationRequestTtlSeconds * 1000

def newCode (request : AuthorizationRequest) (userId : String) (c : Choice) : AuthorizationCode where
  codeHash := env.hash c.random
  clientId := request.clientId
  userId := userId
  redirectUri := request.redirectUri
  codeChallenge := request.codeChallenge
  resource := request.resource
  scopes := request.scopes
  expiresAt := c.now + env.config.authorizationCodeTtlSeconds * 1000
  usedAt := none

def newAccess (grant : Grant) (c : Choice) : AccessToken where
  tokenHash := env.hash c.random
  userId := grant.userId
  oauthClientId := some grant.clientId
  resource := grant.resource
  requestedScopes := grant.scopes
  expiresAt := c.now + env.config.accessTokenTtlSeconds * 1000
  revokedAt := none

def newRefresh (grant : Grant) (c : Choice) : RefreshToken where
  tokenHash := env.hash c.random
  familyId := grant.familyId
  clientId := grant.clientId
  userId := grant.userId
  resource := grant.resource
  scopes := grant.scopes
  expiresAt := c.now + env.config.refreshTokenTtlSeconds * 1000
  revokedAt := none
  rotatedAt := none

@[simp] def Event.requestId : Event → Option String
  | .requested request => some request.id
  | _ => none

@[simp] def Event.codeHash : Event → Option String
  | .approved _ _ _ code => some code.codeHash
  | _ => none

@[simp] def Event.familyId : Event → Option String
  | .claimed _ _ _ familyId => some familyId
  | _ => none

@[simp] def Event.refreshHash : Event → Option String
  | .issued _ refresh => some refresh.tokenHash
  | _ => none

/-- A random value is fresh for a kind of values when no event has drawn it. -/
def Store.drawn (st : Store) (kind : Event → Option String) (value : String) : Bool :=
  (st.log.filterMap kind).contains value

/-- The retention of revoked tokens, 30 days. -/
def retention (now : Time) : Time := now - 30 * 24 * 60 * 60 * 1000

/-- One statement of the call `i`. The client row of a code or a token exists by its foreign key, so its `clientId` is the
row's own. The random id of the family that `issueTokens` opens is drawn with the claim of the code. -/
def stmt (st : Store) (i : Nat) (p : Point) (c : Choice) : Option (Store × Point) :=
  match p with
  | .authorizeClient query =>
    match authorizationChecks env st query with
    | .error e => some (st, .done (.error e))
    | .ok next => some (st, next)
  | .authorizeCreate clientId redirectUri state codeChallenge scopes =>
    let request := newRequest env clientId redirectUri state codeChallenge scopes c
    if st.drawn Event.requestId request.id then none
    else some ({ st with requests := st.requests ++ [request], log := .requested request :: st.log },
      .done (.ok (.redirect "/settings/mcp/authorize" [("request_id", some request.id)])))
  | .approveFind id userId =>
    match st.request id with
    | none => some (st, .done (.error (.notFound "Die OAuth-Anfrage ist abgelaufen oder unbekannt.")))
    | some request =>
      if request.expiresAt ≤ c.now then
        some (st, .done (.error (.notFound "Die OAuth-Anfrage ist abgelaufen oder unbekannt.")))
      else some (st, .approveTx request userId)
  | .approveTx request userId =>
    let code := newCode env request userId c
    if st.drawn Event.codeHash code.codeHash then none
    else if st.requests.any (·.id == request.id) then
      some ({ st with
          requests := Rows.deleteMany (·.id == request.id) st.requests
          codes := st.codes ++ [code]
          log := .approved i userId request code :: st.log },
        .done (.ok (.redirect request.redirectUri [("code", some c.random), ("state", request.state)])))
    else some (st, .done (.error .recordNotFound))
  | .denyFind id =>
    match st.request id with
    | none => some (st, .done (.error (.notFound "Die OAuth-Anfrage ist unbekannt.")))
    | some request => some (st, .denyDelete request)
  | .denyDelete request =>
    if st.requests.any (·.id == request.id) then
      some ({ st with requests := Rows.deleteMany (·.id == request.id) st.requests },
        .done (.ok (.redirect request.redirectUri [("error", some "access_denied"),
          ("error_description", some "Der Benutzer hat den Zugriff abgelehnt."), ("state", request.state)])))
    else some (st, .done (.error .recordNotFound))
  | .exchangeBegin body =>
    match exchangeParameters body with
    | .error e => some (st, .done (.error e))
    | .ok next => some (st, next)
  | .codeFind body code clientId redirectUri verifier resource =>
    match st.code (env.hash code) with
    | none => failed st "invalid_grant" "Autorisierungscode oder PKCE-Prüfung ist ungültig."
    | some record =>
      match codeUsable env record clientId redirectUri verifier resource c.now with
      | .error e => some (st, .done (.error e))
      | .ok _ => some (st, .codeClaim body record c.now)
  | .codeClaim body record time =>
    if st.drawn Event.familyId c.random then none
    else if st.codes.countP (unused record) ≠ 1 then
      failed st "invalid_grant" "Der Autorisierungscode wurde bereits verwendet."
    else
      some ({ st with
          codes := Rows.updateMany (unused record) (AuthorizationCode.use c.now) st.codes
          log := .claimed record.codeHash body time c.random :: st.log },
        .codeTouchClient (grantOfCode record c.random))
  | .codeTouchClient grant =>
    match st.client grant.clientId with
    | none => some (st, .done (.error .recordNotFound))
    | some _ => some (st, .issueAccess grant)
  | .refreshFind token clientId requestedResource =>
    match st.refreshToken (env.hash token) with
    | none => failed st "invalid_grant" "Der Refresh-Token ist ungültig oder abgelaufen."
    | some record =>
      if record.rotatedAt.isSome then some (st, .refreshReuse record.familyId)
      else if refreshUsable env record clientId requestedResource c.now then some (st, .refreshRotate record)
      else failed st "invalid_grant" "Der Refresh-Token ist ungültig oder abgelaufen."
  | .refreshReuse familyId =>
    failed { st with
        refreshTokens := Rows.updateMany (liveIn familyId) (RefreshToken.revoke c.now) st.refreshTokens
        log := .reused familyId :: st.log }
      "invalid_grant" reuseMessage
  | .refreshRotate record =>
    if st.refreshTokens.countP (rotatable record) ≠ 1 then
      failed st "invalid_grant" "Der Refresh-Token wurde bereits verwendet."
    else
      some ({ st with
          refreshTokens := Rows.updateMany (rotatable record) (RefreshToken.rotate c.now) st.refreshTokens
          log := .rotated record.tokenHash :: st.log },
        .issueAccess (grantOfRefresh record))
  | .issueAccess grant =>
    let access := newAccess env grant c
    some ({ st with accessTokens := st.accessTokens ++ [access] }, .issueRefresh grant c.random access)
  | .issueRefresh grant accessToken access =>
    let refresh := newRefresh env grant c
    if st.drawn Event.refreshHash refresh.tokenHash then none
    else
      some ({ st with
          refreshTokens := st.refreshTokens ++ [refresh]
          log := .issued access refresh :: st.log },
        .done (.ok (.tokens accessToken c.random env.config.accessTokenTtlSeconds (" ".intercalate grant.scopes))))
  | .revokeFind token clientId =>
    match st.refreshToken (env.hash token) with
    | none => some (st, .revokeAccess (env.hash token) clientId)
    | some record =>
      if clientId = none ∨ clientId = some record.clientId then some (st, .revokeRefresh record)
      else some (st, .revokeAccess (env.hash token) clientId)
  | .revokeRefresh record =>
    some ({ st with
        refreshTokens := Rows.updateMany (fun row => row.tokenHash == record.tokenHash && row.revokedAt.isNone)
          (RefreshToken.revoke c.now) st.refreshTokens },
      .done (.ok .empty))
  | .revokeAccess tokenHash clientId =>
    some ({ st with
        accessTokens := Rows.updateMany
          (fun row => row.tokenHash == tokenHash && (clientId.isNone || row.oauthClientId == clientId))
          (fun row => { row with revokedAt := some c.now }) st.accessTokens },
      .done (.ok .empty))
  | .cleanupRequests =>
    some ({ st with requests := Rows.deleteMany (fun row => row.expiresAt < c.now) st.requests }, .done (.ok .empty))
  | .cleanupCodes =>
    some ({ st with codes := Rows.deleteMany (fun row => row.expiresAt < c.now) st.codes }, .done (.ok .empty))
  | .cleanupRefreshTokens =>
    some ({ st with
        refreshTokens := Rows.deleteMany
          (fun row => row.expiresAt < c.now || row.revokedAt.any (· < retention c.now)) st.refreshTokens },
      .done (.ok .empty))
  | .cleanupAccessTokens =>
    some ({ st with
        accessTokens := Rows.deleteMany
          (fun row => row.oauthClientId.isSome &&
            (row.expiresAt < retention c.now || row.revokedAt.any (· < retention c.now))) st.accessTokens },
      .done (.ok .empty))
  | .done _ => none

end Statements

/-! ## The system -/

abbrev Sys := Interleave.Sys Store Point

abbrev Label := Interleave.Label Call Choice

/-- The server with registered clients and nothing authorized yet. -/
def init (clients : List Client) : Sys := ⟨⟨clients, [], [], [], [], []⟩, []⟩

abbrev step (env : Env) : Sys → Label → Option Sys := Interleave.step entry (stmt env)

/-- The call has returned. -/
def Point.isDone : Point → Bool
  | .done _ => true
  | _ => false

end AdWiki.Mcp
