import AdWiki.Lib.Interleave

/-!
# The API client

One loaded client module over one token store, and the part of the server that gives out and rotates refresh tokens.
Calls are interleaved: a request goes out, reaches the server, and its answer arrives in steps of their own, and each
continuation of a promise is one more. What a request is for does not matter here, except for `changePassword`, which
clears the store at its end.
-/

namespace AdWiki.ApiClient

/-- The server gives out every number once; the access token of a pair has the number of its refresh token. -/
abbrev Token := Nat

structure TokenStore where
  accessToken : Option Token
  refreshToken : Option Token
  deriving DecidableEq, Repr

namespace TokenStore

def empty : TokenStore := ⟨none, none⟩

def setTokens (store : TokenStore) (accessToken : Token) (refreshToken : Option Token) : TokenStore :=
  ⟨some accessToken, refreshToken.or store.refreshToken⟩

def clear (_ : TokenStore) : TokenStore := empty

end TokenStore

/-! ## The server -/

/-- The refresh tokens of a user: those that are valid, and those that have been exchanged for a new pair. -/
structure Server where
  next : Token
  live : List Token
  spent : List Token
  revoked : Bool
  deriving DecidableEq, Repr

namespace Server

variable (server : Server)

/-- A new session. -/
def login : Server × Token := ({ server with next := server.next + 1, live := server.next :: server.live }, server.next)

/-- `POST /auth/refresh`: a valid token is rotated, one that has been rotated before is taken for theft. -/
def refresh (token : Token) : Server × Option Token :=
  if token ∈ server.live then
    ({ server with
        next := server.next + 1
        live := server.next :: server.live.erase token
        spent := token :: server.spent }, some server.next)
  else if token ∈ server.spent then ({ server with live := [], revoked := true }, none)
  else (server, none)

def logout (token : Token) : Server := { server with live := server.live.erase token }

/-- All sessions end. -/
def changePassword : Server := { server with live := [] }

end Server

/-! ## Calls -/

inductive RequestKind
  | request
  | download
  | changePassword
  deriving DecidableEq, Repr

inductive Call
  | authenticated (kind : RequestKind)
  | refresh
  | logout
  | login
  deriving DecidableEq, Repr

inductive Status
  | ok
  | unauthorized
  | failed
  deriving DecidableEq, Repr

/-- `reached`: the server receives the request. `status`: what it answers to a request with an access token. `arrives`:
the answer comes back, in the form that the client expects. -/
structure Choice where
  reached : Bool
  status : Status
  arrives : Bool
  deriving DecidableEq, Repr

/-- Where a call is. `retried`: the request is sent for the second time. The promise of a refresh is named by the call
that has started it. -/
inductive Point
  | fetch (kind : RequestKind) (retried : Bool)
  | sent (kind : RequestKind) (retried : Bool)
  | answered (kind : RequestKind) (retried : Bool) (status : Status)
  | refreshSent (kind : RequestKind) (token : Token)
  | refreshAnswered (kind : RequestKind) (token : Token) (answer : Option Token)
  | settling (kind : RequestKind) (result : Bool)
  | awaiting (kind : RequestKind) (promise : Nat)
  | manualRead
  | manualSent (token : Token)
  | manualAnswered (token : Token) (answer : Option Token)
  | manualFailed (token : Token)
  | logoutRead
  | logoutSent (token : Token)
  | logoutAnswered
  | loginRead
  | loginSent
  | loginAnswered (answer : Option Token)
  | done
  deriving DecidableEq, Repr

def entry : Call → Point
  | .authenticated kind => .fetch kind false
  | .refresh => .manualRead
  | .logout => .logoutRead
  | .login => .loginRead

/-- The module variables, the store and the server. `sent` has the tokens that were sent to the refresh endpoint,
`signedOut` says that a logout or a change of the password has ended and no login was started since; no variable of the
client has them. -/
structure Client where
  tokens : TokenStore
  refreshPromise : Option Nat
  settled : List (Nat × Bool)
  server : Server
  sent : List Token
  signedOut : Bool
  deriving DecidableEq, Repr

variable (st : Client) (i : Nat)

/-- `tryRefresh`, and `doRefresh` up to its first `await` where there is no refresh to join. -/
def tryRefresh (kind : RequestKind) : Client × Point :=
  match st.refreshPromise with
  | some promise => (st, .awaiting kind promise)
  | none =>
    match st.tokens.refreshToken with
    | none => ({ st with refreshPromise := some i }, .settling kind false)
    | some token => ({ st with refreshPromise := some i, sent := token :: st.sent }, .refreshSent kind token)

/-- `store.clear()` at the end of `logout` and `changePassword`. -/
def signOut : Client := { st with tokens := st.tokens.clear, signedOut := true }

/-- A request has succeeded. -/
def succeed (kind : RequestKind) : Client :=
  match kind with
  | .changePassword => signOut st
  | _ => st

/-- A refresh at the server: the new state and the answer. -/
def exchange (token : Token) (c : Choice) : Client × Option Token :=
  if c.reached then
    let (server, answer) := st.server.refresh token
    ({ st with server := server }, answer)
  else (st, none)

def Client.setTokens (token : Token) : Client := { st with tokens := st.tokens.setTokens token (some token) }

def Client.clear : Client := { st with tokens := st.tokens.clear }

/-- The next step of a call. -/
def stmt (p : Point) (c : Choice) : Option (Client × Point) :=
  match p with
  | .fetch kind retried => some (st, .sent kind retried)
  | .sent kind retried =>
    if kind = .changePassword ∧ c.status = .ok then
      some ({ st with server := st.server.changePassword }, .answered kind retried c.status)
    else some (st, .answered kind retried c.status)
  | .answered kind retried status =>
    if !c.arrives then some (st, .done)
    else
      match status, retried with
      | .ok, _ => some (succeed st kind, .done)
      | .unauthorized, false => some (tryRefresh st i kind)
      | _, _ => some (st, .done)
  | .refreshSent kind token =>
    let (st', answer) := exchange st token c
    some (st', .refreshAnswered kind token answer)
  | .refreshAnswered kind _ answer =>
    match answer, c.arrives with
    | some token, true => some (st.setTokens token, .settling kind true)
    | _, _ => some (st.clear, .settling kind false)
  | .settling kind result =>
    some ({ st with refreshPromise := none, settled := (i, result) :: st.settled }, .awaiting kind i)
  | .awaiting kind promise =>
    match st.settled.lookup promise with
    | none => none
    | some true => some (st, .fetch kind true)
    | some false => some (st, .done)
  | .manualRead =>
    match st.tokens.refreshToken with
    | none => some (st, .done)
    | some token => some ({ st with sent := token :: st.sent }, .manualSent token)
  | .manualSent token =>
    let (st', answer) := exchange st token c
    some (st', .manualAnswered token answer)
  | .manualAnswered token answer =>
    match answer, c.arrives with
    | some token, true => some (st.setTokens token, .done)
    | _, _ => some (st, .manualFailed token)
  | .logoutRead =>
    match st.tokens.refreshToken with
    | none => some (signOut st, .done)
    | some token => some (st, .logoutSent token)
  | .logoutSent token =>
    if c.reached then some ({ st with server := st.server.logout token }, .logoutAnswered) else some (st, .logoutAnswered)
  | .logoutAnswered => some (signOut st, .done)
  | .loginRead => some ({ st with signedOut := false }, .loginSent)
  | .loginSent =>
    if c.reached ∧ c.status = .ok then
      let (server, token) := st.server.login
      some ({ st with server := server }, .loginAnswered (some token))
    else some (st, .loginAnswered none)
  | .loginAnswered answer =>
    match answer, c.arrives with
    | some token, true => some (st.setTokens token, .done)
    | _, _ => some (st, .done)
  | .manualFailed _ | .done => none

abbrev Sys := Interleave.Sys Client Point

abbrev Label := Interleave.Label Call Choice

/-- The module is loaded, with what the store has from before. -/
def init (tokens : TokenStore) (server : Server) : Sys := ⟨⟨tokens, none, [], server, [], false⟩, []⟩

abbrev step : Sys → Label → Option Sys := Interleave.step entry stmt

/-! ## What a step does to the tokens -/

/-- The token that a call has sent, as long as the answer is out, and if `auth.refresh` has failed with it. -/
def Point.token : Point → Option Token
  | .refreshSent _ token | .refreshAnswered _ token _ | .manualSent token | .manualAnswered token
      _ | .manualFailed token =>
    some token
  | _ => none

/-- The new token on its way to the client. -/
def Point.answer : Point → Option Token
  | .refreshAnswered _ _ answer | .manualAnswered _ answer | .loginAnswered answer => answer
  | _ => none

/-- The call runs the refresh that the others join. -/
def Point.refreshes : Point → Bool
  | .refreshSent _ _ | .refreshAnswered _ _ _ | .settling _ _ => true
  | _ => false

/-- The server has not seen the token yet that the call has sent. -/
def Point.underway : Point → Option Token
  | .refreshSent _ token | .manualSent token => some token
  | _ => none

/-- The token that the next step of the call reads and sends. -/
def spends (st : Client) (c : Choice) : Point → Option Token
  | .answered _ retried status =>
    if c.arrives ∧ status = .unauthorized ∧ retried = false ∧ st.refreshPromise = none then
      st.tokens.refreshToken else none
  | .manualRead => st.tokens.refreshToken
  | _ => none

end AdWiki.ApiClient
