import AdWiki.Auth.AuthService
import AdWiki.Lib.RowLocks

/-!
# Session statements under read-committed isolation

`refreshToken`, `logout`, `changePassword` and `resetPassword` with one program point for each SQL statement on the
table `sessions`. The store holds the committed rows and the row locks; what a transaction has written but not
committed is in its program point.

A set-based statement takes a snapshot of the rows it matches when it starts (`sweepStart`), visits them in any order
(`sweepRun`), waits at a row that another transaction has locked, and evaluates its condition again on the committed
row. A row that was inserted after the snapshot is not visited. Statements on other tables only decide whether a call
goes on; their outcome is a choice.
-/

namespace AdWiki.Auth.ReadCommitted

/-- The sessions that a set-based statement is about. -/
inductive Scope
  | family (familyId : String)
  | user (userId : String)
  deriving DecidableEq

def Scope.covers : Scope → Session → Bool
  | .family familyId, row => row.familyId == familyId
  | .user userId, row => row.userId == userId

/-- The `WHERE` clause: `logout` and the reuse detection update the family's rows that are not revoked, a password
change deletes the user's rows. -/
def Scope.matching : Scope → Session → Bool
  | .family familyId, row => row.liveIn familyId
  | .user userId, row => row.userId == userId

/-- The effect on the rows that the statement has locked. -/
def Scope.write (now : Time) (held : List String) (sessions : List Session) : Scope → List Session
  | .family _ => Rows.updateMany (fun row => held.contains row.id) (Session.revoke now) sessions
  | .user _ => Rows.deleteMany (fun row => held.contains row.id) sessions

/-- The call that a set-based statement belongs to. -/
inductive Kind
  | reuse
  | logout
  | password
  deriving DecidableEq

inductive Mode
  | consume
  | sweep
  deriving DecidableEq

abbrev Lock := RowLocks.Lock String Mode

inductive Event
  | created (session : Session)
  | swept (scope : Scope)
  deriving DecidableEq

/-- The committed rows, the locks, and the record of created sessions and of committed logouts and password
changes. -/
structure Store where
  sessions : List Session
  locks : List Lock
  log : List Event

def Event.session : Event → Option Session
  | .created session => some session
  | _ => none

def Store.issued (st : Store) : List Session := st.log.filterMap Event.session

def Store.fresh (st : Store) (id tokenHash : String) : Bool :=
  st.issued.all fun session => session.id != id && session.tokenHash != tokenHash

inductive Call
  | refreshToken (token : String) (context : RequestContext)
  | logout (token : String)
  | changePassword (userId : String)
  | resetPassword (userId : String)

inductive Point
  | refreshVerify (token : String) (context : RequestContext)
  | refreshRead (payload : JwtPayload) (tokenHash : String) (now : Time) (context : RequestContext)
  | refreshConsume (session : Session) (now : Time) (context : RequestContext)
  | refreshLost (session : Session) (now : Time)
  | refreshInsert (session : Session) (now : Time) (context : RequestContext)
  | refreshCommit (session replacement : Session) (token : String) (now : Time)
  | logoutFind (tokenHash : String)
  | passwordCheck (userId : String)
  | sweepStart (scope : Scope) (kind : Kind) (now : Time)
  | sweepRun (scope : Scope) (kind : Kind) (now : Time) (todo held : List String)
  | sweepCommit (scope : Scope) (kind : Kind) (now : Time) (held : List String)
  | done (result : Except HttpError Answer)

def entry (env : Env) : Call → Point
  | .refreshToken token context => .refreshVerify token context
  | .logout token => .logoutFind (env.hashRefreshToken token)
  | .changePassword userId => .passwordCheck userId
  | .resetPassword userId => .passwordCheck userId

/-- The clock, fresh values, the row to visit next, and the outcome of statements on other tables; `abort` ends the
transaction without effect. -/
structure Choice where
  now : Time
  id : String
  token : String
  row : String
  accepted : Bool
  providerActive : Bool
  abort : Bool

section Statements

variable (env : Env)

def refused (st : Store) (e : HttpError) : Option (Store × Point) := some (st, .done (.error e))

/-- The transaction ends without effect. -/
def rollback (st : Store) (i : Nat) : Option (Store × Point) :=
  refused { st with locks := RowLocks.release st.locks i } (.internal "aborted")

/-- What a finished set-based statement and its transaction answer. -/
def Kind.answer : Kind → Except HttpError Answer
  | .reuse => .error sessionRefused
  | _ => .ok .empty

/-- A committed logout or password change goes on record. -/
def Kind.record (scope : Scope) (log : List Event) : Kind → List Event
  | .reuse => log
  | _ => .swept scope :: log

def stmt (st : Store) (i : Nat) (p : Point) (c : Choice) : Option (Store × Point) :=
  match p with
  | .refreshVerify token context =>
    match env.verify c.now token with
    | none => refused st tokenRefused
    | some payload =>
      if payload.tokenType = some .access then refused st tokenRefused
      else some (st, .refreshRead payload (env.hashRefreshToken token) c.now context)
  | .refreshRead payload tokenHash now context =>
    match st.sessions.find? (·.tokenHash == tokenHash) with
    | none => refused st sessionRefused
    | some session =>
      if session.refused payload now c.providerActive then refused st sessionRefused
      else if session.rotatedAt.isSome then some (st, .sweepStart (.family session.familyId) .reuse now)
      else if session.revokedAt.isSome ∨ c.accepted = false then refused st sessionRefused
      else some (st, .refreshConsume session now context)
  | .refreshConsume session now context =>
    if c.abort then rollback st i
    else if st.sessions.any (Session.consumable session.id now) then
      (RowLocks.acquire st.locks session.id i .consume).map fun locks =>
        ({ st with locks := locks }, .refreshInsert session now context)
    else some (st, .refreshLost session now)
  | .refreshLost session now =>
    if (st.sessions.find? (·.id == session.id)).any (·.rotatedAt.isSome) then
      some (st, .sweepStart (.family session.familyId) .reuse now)
    else refused st sessionRefused
  | .refreshInsert session now context =>
    if c.abort then rollback st i
    else if st.fresh c.id (env.hashRefreshToken c.token) then
      let replacement := session.replacement context c.id (env.hashRefreshToken c.token)
        (env.refreshExpiryDate c.token c.now)
      some ({ st with log := .created replacement :: st.log }, .refreshCommit session replacement c.token now)
    else none
  | .refreshCommit session replacement token now =>
    if c.abort then rollback st i
    else
      some ({ st with
          sessions := Rows.updateMany (·.id == session.id) (Session.consume now) st.sessions ++ [replacement]
          locks := RowLocks.release st.locks i },
        .done (.ok (.tokens token)))
  | .logoutFind tokenHash =>
    match st.sessions.find? (·.tokenHash == tokenHash) with
    | none => some (st, .done (.ok .empty))
    | some session => some (st, .sweepStart (.family session.familyId) .logout c.now)
  | .passwordCheck userId =>
    if c.accepted then some (st, .sweepStart (.user userId) .password c.now)
    else refused st (.badRequest "Der Reset-Link ist ungültig oder abgelaufen.")
  | .sweepStart scope kind now =>
    some (st, .sweepRun scope kind now ((st.sessions.filter scope.matching).map Session.id) [])
  | .sweepRun scope kind now todo held =>
    if c.abort then rollback st i
    else
      match todo with
      | [] => some (st, .sweepCommit scope kind now held)
      | _ :: _ =>
        if c.row ∉ todo then none
        else if st.locks.any (·.row == c.row) then none
        else if st.sessions.any (fun row => row.id == c.row && scope.matching row) then
          (RowLocks.acquire st.locks c.row i .sweep).map fun locks =>
            ({ st with locks := locks }, .sweepRun scope kind now (todo.filter (· ≠ c.row)) (c.row :: held))
        else some (st, .sweepRun scope kind now (todo.filter (· ≠ c.row)) held)
  | .sweepCommit scope kind now held =>
    if c.abort then rollback st i
    else
      some ({ sessions := scope.write now held st.sessions
              locks := RowLocks.release st.locks i
              log := kind.record scope st.log },
        .done kind.answer)
  | .done _ => none

end Statements

/-! ## The system -/

abbrev Sys := Interleave.Sys Store Point

abbrev Label := Interleave.Label Call Choice

abbrev step (env : Env) : Sys → Label → Option Sys := Interleave.step (entry env) (stmt env)

/-- Any table with unique ids, all transactions ended. -/
structure Table where
  sessions : List Session
  ids : (sessions.map Session.id).Nodup

def init (table : Table) : Sys := ⟨⟨table.sessions, [], table.sessions.map .created⟩, []⟩

end AdWiki.Auth.ReadCommitted
