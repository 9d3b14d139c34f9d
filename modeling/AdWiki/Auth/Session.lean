import AdWiki.Common.Http
import AdWiki.Lib.Rows

/-!
# Session rows

A refresh token is stored as the hash of its text in a row of the table `sessions`; all rows that descend from one
login form a family. The conditions and the assignments of the statements that `AuthService` sends on this table are
defined here, so that the service with atomic transactions and the service under read-committed isolation use the
same ones.
-/

namespace AdWiki.Auth

structure RequestContext where
  ipAddress : Option String
  userAgent : Option String
  deriving DecidableEq

/-- Ties a session to an external identity that was just verified. -/
structure ExternalSessionContext where
  externalIdentityId : String
  verifiedAt : Time
  recheckAfter : Time
  deriving DecidableEq

inductive TokenType
  | access
  | refresh
  deriving DecidableEq

/-- The claims of a signed token that the service reads. -/
structure JwtPayload where
  userId : String
  tokenType : Option TokenType
  tokenId : Option String
  deriving DecidableEq

structure Session where
  id : String
  userId : String
  tokenHash : String
  familyId : String
  ipAddress : Option String
  userAgent : Option String
  expiresAt : Time
  rotatedAt : Option Time
  revokedAt : Option Time
  externalIdentityId : Option String
  providerVerifiedAt : Option Time
  providerRecheckAfter : Option Time
  deriving DecidableEq

namespace Session

/-- `WHERE id = … AND rotated_at IS NULL AND revoked_at IS NULL AND expires_at > now`. -/
def consumable (id : String) (now : Time) (row : Session) : Bool :=
  row.id == id && row.rotatedAt.isNone && row.revokedAt.isNone && decide (now < row.expiresAt)

/-- `WHERE family_id = … AND revoked_at IS NULL`. -/
def liveIn (familyId : String) (row : Session) : Bool := row.familyId == familyId && row.revokedAt.isNone

def consume (now : Time) (row : Session) : Session := { row with rotatedAt := some now, revokedAt := some now }

def revoke (now : Time) (row : Session) : Session := { row with revokedAt := some now }

/-- The foreign-key action `SetNull` for a deleted identity. -/
def detach (row : Session) : Session := { row with externalIdentityId := none }

/-- The row that `issueTokens` creates; its id opens the family. -/
def login (userId : String) (context : RequestContext) (external : Option ExternalSessionContext)
    (id tokenHash : String) (expiresAt : Time) : Session where
  id := id
  userId := userId
  tokenHash := tokenHash
  familyId := id
  ipAddress := context.ipAddress
  userAgent := context.userAgent
  expiresAt := expiresAt
  rotatedAt := none
  revokedAt := none
  externalIdentityId := external.map ExternalSessionContext.externalIdentityId
  providerVerifiedAt := external.map ExternalSessionContext.verifiedAt
  providerRecheckAfter := external.map ExternalSessionContext.recheckAfter

/-- The row that `refreshToken` creates for a consumed one. -/
def replacement (session : Session) (context : RequestContext) (id tokenHash : String) (expiresAt : Time) : Session where
  id := id
  userId := session.userId
  tokenHash := tokenHash
  familyId := session.familyId
  ipAddress := context.ipAddress <|> session.ipAddress
  userAgent := context.userAgent <|> session.userAgent
  expiresAt := expiresAt
  rotatedAt := none
  revokedAt := none
  externalIdentityId := session.externalIdentityId
  providerVerifiedAt := session.providerVerifiedAt
  providerRecheckAfter := session.providerRecheckAfter

/-- The first checks of `refreshToken` on the session it found. -/
def refused (payload : JwtPayload) (now : Time) (providerActive : Bool) (session : Session) : Bool :=
  decide (session.expiresAt < now) || session.userId != payload.userId ||
    (payload.tokenId.isSome && payload.tokenId != some session.id) ||
    (session.externalIdentityId.isSome && (!providerActive || session.providerRecheckAfter.all (· ≤ now)))

/-! ## What the assignments leave alone -/

variable {row : Session} {now : Time} {id familyId : String}

@[simp] theorem consume_familyId : (consume now row).familyId = row.familyId := rfl
@[simp] theorem consume_revokedAt : (consume now row).revokedAt = some now := rfl
@[simp] theorem consume_rotatedAt : (consume now row).rotatedAt = some now := rfl
@[simp] theorem revoke_familyId : (revoke now row).familyId = row.familyId := rfl
@[simp] theorem revoke_revokedAt : (revoke now row).revokedAt = some now := rfl
@[simp] theorem revoke_rotatedAt : (revoke now row).rotatedAt = row.rotatedAt := rfl
@[simp] theorem detach_familyId : (detach row).familyId = row.familyId := rfl
@[simp] theorem detach_revokedAt : (detach row).revokedAt = row.revokedAt := rfl
@[simp] theorem detach_rotatedAt : (detach row).rotatedAt = row.rotatedAt := rfl

theorem consumable_iff : consumable id now row = true ↔
    row.id = id ∧ row.rotatedAt = none ∧ row.revokedAt = none ∧ now < row.expiresAt := by
  simp [consumable, and_assoc]

theorem liveIn_iff : liveIn familyId row = true ↔ row.familyId = familyId ∧ row.revokedAt = none := by
  simp [liveIn]

/-- What the checks let through: the owner matches, and an external session has an active provider and time left. -/
theorem refused_eq_false {payload : JwtPayload} {providerActive : Bool}
    (h : refused payload now providerActive row = false) :
    now ≤ row.expiresAt ∧ row.userId = payload.userId ∧
      (row.externalIdentityId.isSome → providerActive = true ∧ ∃ t, row.providerRecheckAfter = some t ∧ now < t) := by
  simp only [refused, Bool.or_eq_false_iff, Bool.and_eq_false_iff, decide_eq_false_iff_not, Nat.not_lt,
    bne_eq_false_iff_eq] at h
  obtain ⟨⟨⟨hexp, huser⟩, -⟩, hext⟩ := h
  refine ⟨hexp, huser, fun hsome => ?_⟩
  rcases hext with hnone | ⟨hactive, hcheck⟩
  · rw [hsome] at hnone
    cases hnone
  · refine ⟨by simpa using hactive, ?_⟩
    cases ht : row.providerRecheckAfter with
    | none =>
      rw [ht] at hcheck
      cases hcheck
    | some t =>
      rw [ht] at hcheck
      exact ⟨t, rfl, by simpa using hcheck⟩

end Session

end AdWiki.Auth
