import AdWiki.Mcp.OAuth
import AdWiki.Lib.Fallible

/-!
# What one statement of the authorization server does

`Exec env st i c p st' q`: with the outside choices `c`, the call `i` at point `p` takes the store `st` to `st'` and is
then at point `q`. Every statement is one of these cases (`exec_of_stmt`), and the invariants of the following modules are
proved by cases on it. A failed statement changes nothing, and the clean-up statements, a denial and the revocation
of an access token only remove rows or change access tokens; they share a case each.

* `log_suffix`: what has happened stays on record.
* `exec_of_stmt`: the cases are exhaustive.
-/

namespace AdWiki.Mcp

open Fallible

variable {env : Env}

/-! ## Parameters -/

theorem authorizationChecks_ok {st : Store} {query : Body} {next : Point}
    (h : authorizationChecks env st query = .ok next) :
    ∃ clientId redirectUri state codeChallenge scopes,
      next = .authorizeCreate clientId redirectUri state codeChallenge scopes := by
  simp only [authorizationChecks, bind_eq_ok, ite_error_eq_ok] at h
  obtain ⟨_, -, clientId, -, redirectUri, -, codeChallenge, -, _, -, _, -, state, -, -, h⟩ := h
  split at h
  · cases h
  · obtain ⟨-, h⟩ := ite_error_eq_ok.mp h
    split at h
    · cases h
    · simp only [bind_eq_ok, ite_error_eq_ok, pure_eq_ok] at h
      obtain ⟨-, _, -, scopes, -, h⟩ := h
      exact ⟨clientId, redirectUri, state, codeChallenge, scopes, h.symm⟩

/-- The point that follows a well-formed exchange request, with the body it was read from. -/
def ReadFrom (body : Body) : Point → Prop
  | .codeFind body' code clientId redirectUri verifier resource =>
    body' = body ∧ requiredString (body "code") "code" = .ok code ∧
      requiredString (body "client_id") "client_id" = .ok clientId ∧
      requiredString (body "redirect_uri") "redirect_uri" = .ok redirectUri ∧
      requiredString (body "code_verifier") "code_verifier" = .ok verifier ∧
      requiredString (body "resource") "resource" = .ok resource
  | .refreshFind token _ _ => requiredString (body "refresh_token") "refresh_token" = .ok token
  | _ => False

theorem exchangeParameters_ok {body : Body} {next : Point} (h : exchangeParameters body = .ok next) :
    ReadFrom body next := by
  simp only [exchangeParameters, bind_eq_ok] at h
  obtain ⟨grantType, -, h⟩ := h
  split at h
  · simp only [bind_eq_ok, ite_error_eq_ok, pure_eq_ok] at h
    obtain ⟨code, hcode, clientId, hclient, redirectUri, hredirect, verifier, hverifier, resource, hresource, -, rfl⟩ := h
    exact ⟨rfl, hcode, hclient, hredirect, hverifier, hresource⟩
  · split at h
    · simp only [bind_eq_ok, pure_eq_ok] at h
      obtain ⟨token, htoken, clientId, -, resource, -, rfl⟩ := h
      exact htoken
    · cases h

/-- What the row checks of `exchangeCode` let through. -/
theorem codeUsable_ok {record : AuthorizationCode} {clientId redirectUri verifier resource : String} {now : Time}
    (h : codeUsable env record clientId redirectUri verifier resource now = .ok ()) :
    record.usedAt = none ∧ now < record.expiresAt ∧ record.clientId = clientId ∧ record.redirectUri = redirectUri ∧
      env.canonical resource = some record.resource ∧ env.s256 verifier = record.codeChallenge := by
  simp only [codeUsable] at h
  split at h
  · cases h
  · next hrow =>
    simp only [not_or, Bool.not_eq_true, Option.isSome_eq_false_iff, Option.isNone_iff_eq_none, Nat.not_le, not_not,
      ne_eq] at hrow
    split at h
    · cases h
    · next url hurl =>
      split at h
      · cases h
      · next hres =>
        simp only [not_or, not_not, ne_eq, Bool.not_eq_false, pkceMatches, beq_iff_eq] at hres
        exact ⟨hrow.1, hrow.2.1, hrow.2.2.1, hrow.2.2.2, hres.1 ▸ hurl, hres.2⟩

/-! ## The cases of a statement -/

section Exec

variable (env) (st : Store) (i : Nat) (c : Choice)

/-- One case for each kind of statement. -/
inductive Exec : Point → Store → Point → Prop
  | failed {p : Point} (e : Failure) : Exec p st (.done (.error e))
  | authorizing {query clientId redirectUri state codeChallenge scopes} :
    Exec (.authorizeClient query) st (.authorizeCreate clientId redirectUri state codeChallenge scopes)
  | requested {clientId redirectUri state codeChallenge scopes request} {a : Answer}
    (hnew : request = newRequest env clientId redirectUri state codeChallenge scopes c)
    (hfresh : request.id ∉ st.log.filterMap Event.requestId) :
    Exec (.authorizeCreate clientId redirectUri state codeChallenge scopes)
      { st with requests := st.requests ++ [request], log := .requested request :: st.log } (.done (.ok a))
  | approving {id userId request} (hmem : request ∈ st.requests) (hid : request.id = id) :
    Exec (.approveFind id userId) st (.approveTx request userId)
  | approved {request userId code} {a : Answer} (hnew : code = newCode env request userId c)
    (hfresh : code.codeHash ∉ st.log.filterMap Event.codeHash) (hrow : ∃ r ∈ st.requests, r.id = request.id) :
    Exec (.approveTx request userId)
      { st with
        requests := Rows.deleteMany (·.id == request.id) st.requests
        codes := st.codes ++ [code]
        log := .approved i userId request code :: st.log } (.done (.ok a))
  | denying {id request} (hmem : request ∈ st.requests) : Exec (.denyFind id) st (.denyDelete request)
  | exchanging {body next} (hread : ReadFrom body next) : Exec (.exchangeBegin body) st next
  | codeFound {body code clientId redirectUri verifier resource record} (hmem : record ∈ st.codes)
    (hhash : record.codeHash = env.hash code)
    (huse : codeUsable env record clientId redirectUri verifier resource c.now = .ok ()) :
    Exec (.codeFind body code clientId redirectUri verifier resource) st (.codeClaim body record c.now)
  | claimed {body record time} (hfresh : c.random ∉ st.log.filterMap Event.familyId)
    (hone : st.codes.countP (unused record) = 1) :
    Exec (.codeClaim body record time)
      { st with
        codes := Rows.updateMany (unused record) (AuthorizationCode.use c.now) st.codes
        log := .claimed record.codeHash body time c.random :: st.log }
      (.codeTouchClient (grantOfCode record c.random))
  | touched {grant} : Exec (.codeTouchClient grant) st (.issueAccess grant)
  | reuseFound {token clientId resource record} (hmem : record ∈ st.refreshTokens)
    (hrot : record.rotatedAt.isSome) : Exec (.refreshFind token clientId resource) st (.refreshReuse record.familyId)
  | refreshFound {token clientId resource record} (hmem : record ∈ st.refreshTokens)
    (hhash : record.tokenHash = env.hash token) :
    Exec (.refreshFind token clientId resource) st (.refreshRotate record)
  | reused {familyId} {e : Failure} :
    Exec (.refreshReuse familyId)
      { st with
        refreshTokens := Rows.updateMany (liveIn familyId) (RefreshToken.revoke c.now) st.refreshTokens
        log := .reused familyId :: st.log } (.done (.error e))
  | rotated {record} (hone : st.refreshTokens.countP (rotatable record) = 1) :
    Exec (.refreshRotate record)
      { st with
        refreshTokens := Rows.updateMany (rotatable record) (RefreshToken.rotate c.now) st.refreshTokens
        log := .rotated record.tokenHash :: st.log } (.issueAccess (grantOfRefresh record))
  | accessIssued {grant access} (hnew : access = newAccess env grant c) :
    Exec (.issueAccess grant) { st with accessTokens := st.accessTokens ++ [access] }
      (.issueRefresh grant c.random access)
  | issued {grant accessToken access refresh} {a : Answer} (hnew : refresh = newRefresh env grant c)
    (hfresh : refresh.tokenHash ∉ st.log.filterMap Event.refreshHash) :
    Exec (.issueRefresh grant accessToken access)
      { st with refreshTokens := st.refreshTokens ++ [refresh], log := .issued access refresh :: st.log }
      (.done (.ok a))
  | revoking {token clientId q}
      (hq : (∃ record, q = .revokeRefresh record) ∨ ∃ tokenHash, q = .revokeAccess tokenHash clientId) :
    Exec (.revokeFind token clientId) st q
  | revoked {record} {a : Answer} :
    Exec (.revokeRefresh record)
      { st with
        refreshTokens := Rows.updateMany (fun row => row.tokenHash == record.tokenHash && row.revokedAt.isNone)
          (RefreshToken.revoke c.now) st.refreshTokens } (.done (.ok a))
  | removed {p requests codes refreshTokens accessTokens} {a : Answer} (hrequests : requests.Sublist st.requests)
    (hcodes : codes.Sublist st.codes) (hrefresh : refreshTokens.Sublist st.refreshTokens) :
    Exec p { st with requests := requests, codes := codes, refreshTokens := refreshTokens, accessTokens := accessTokens }
      (.done (.ok a))

end Exec

/-- A value that is not drawn yet. -/
theorem not_mem_of_drawn {st : Store} {kind : Event → Option String} {value : String}
    (h : ¬st.drawn kind value = true) : value ∉ st.log.filterMap kind := by
  simpa [Store.drawn] using h

variable {st st' : Store} {i : Nat} {p q : Point} {c : Choice}

/-! One lemma for each statement that has more than one outcome. -/

section Branches

attribute [local simp] stmt

theorem exec_authorizeClient {query : Body} (h : stmt env st i (.authorizeClient query) c = some (st', q)) :
    Exec env st i c (.authorizeClient query) st' q := by
  simp only [stmt] at h
  cases hc : authorizationChecks env st query with
  | error e =>
    rw [hc] at h
    cases h
    exact .failed e
  | ok next =>
    rw [hc] at h
    cases h
    obtain ⟨_, _, _, _, _, rfl⟩ := authorizationChecks_ok hc
    exact .authorizing

theorem exec_authorizeCreate {clientId redirectUri : String} {state : Option String} {codeChallenge : String}
    {scopes : List String}
    (h : stmt env st i (.authorizeCreate clientId redirectUri state codeChallenge scopes) c = some (st', q)) :
    Exec env st i c (.authorizeCreate clientId redirectUri state codeChallenge scopes) st' q := by
  simp only [stmt] at h
  split at h
  · cases h
  · next hd =>
    cases h
    exact .requested rfl (not_mem_of_drawn hd)

theorem exec_approveFind {id userId : String} (h : stmt env st i (.approveFind id userId) c = some (st', q)) :
    Exec env st i c (.approveFind id userId) st' q := by
  simp only [stmt] at h
  cases hr : st.request id with
  | none =>
    rw [hr] at h
    cases h
    exact .failed _
  | some request =>
    rw [hr] at h
    simp only at h
    split at h
    · cases h
      exact .failed _
    · cases h
      exact .approving (List.mem_of_find?_eq_some hr) (by simpa using List.find?_some hr)

theorem exec_approveTx {request : AuthorizationRequest} {userId : String}
    (h : stmt env st i (.approveTx request userId) c = some (st', q)) :
    Exec env st i c (.approveTx request userId) st' q := by
  simp only [stmt] at h
  split at h
  · cases h
  · next hd =>
    split at h
    · next hrow =>
      cases h
      exact .approved rfl (not_mem_of_drawn hd) (by simpa using hrow)
    · cases h
      exact .failed _

theorem exec_denyFind {id : String} (h : stmt env st i (.denyFind id) c = some (st', q)) :
    Exec env st i c (.denyFind id) st' q := by
  simp only [stmt] at h
  cases hr : st.request id with
  | none =>
    rw [hr] at h
    cases h
    exact .failed _
  | some request =>
    rw [hr] at h
    cases h
    exact .denying (List.mem_of_find?_eq_some hr)

theorem exec_denyDelete {request : AuthorizationRequest} (h : stmt env st i (.denyDelete request) c = some (st', q)) :
    Exec env st i c (.denyDelete request) st' q := by
  simp only [stmt] at h
  split at h
  · cases h
    exact .removed List.filter_sublist (.refl _) (.refl _)
  · cases h
    exact .failed _

theorem exec_exchangeBegin {body : Body} (h : stmt env st i (.exchangeBegin body) c = some (st', q)) :
    Exec env st i c (.exchangeBegin body) st' q := by
  simp only [stmt] at h
  cases he : exchangeParameters body with
  | error e =>
    rw [he] at h
    cases h
    exact .failed e
  | ok next =>
    rw [he] at h
    cases h
    exact .exchanging (exchangeParameters_ok he)

theorem exec_codeFind {body : Body} {code clientId redirectUri verifier resource : String}
    (h : stmt env st i (.codeFind body code clientId redirectUri verifier resource) c = some (st', q)) :
    Exec env st i c (.codeFind body code clientId redirectUri verifier resource) st' q := by
  simp only [stmt, failed] at h
  cases hr : st.code (env.hash code) with
  | none =>
    rw [hr] at h
    cases h
    exact .failed _
  | some record =>
    rw [hr] at h
    simp only at h
    split at h
    · cases h
      exact .failed _
    · next huse =>
      cases h
      exact .codeFound (List.mem_of_find?_eq_some hr) (by simpa using List.find?_some hr) huse

theorem exec_codeClaim {body : Body} {record : AuthorizationCode} {time : Time}
    (h : stmt env st i (.codeClaim body record time) c = some (st', q)) :
    Exec env st i c (.codeClaim body record time) st' q := by
  simp only [stmt, failed] at h
  split at h
  · cases h
  · next hd =>
    split at h
    · cases h
      exact .failed _
    · next hone =>
      cases h
      exact .claimed (not_mem_of_drawn hd) (not_not.mp hone)

theorem exec_codeTouchClient {grant : Grant} (h : stmt env st i (.codeTouchClient grant) c = some (st', q)) :
    Exec env st i c (.codeTouchClient grant) st' q := by
  simp only [stmt] at h
  split at h
  · cases h
    exact .failed _
  · cases h
    exact .touched

theorem exec_refreshFind {token clientId : String} {resource : Option String}
    (h : stmt env st i (.refreshFind token clientId resource) c = some (st', q)) :
    Exec env st i c (.refreshFind token clientId resource) st' q := by
  simp only [stmt, failed] at h
  cases hr : st.refreshToken (env.hash token) with
  | none =>
    rw [hr] at h
    cases h
    exact .failed _
  | some record =>
    rw [hr] at h
    have hmem := List.mem_of_find?_eq_some hr
    simp only at h
    split at h
    · next hrot =>
      cases h
      exact .reuseFound hmem hrot
    · split at h
      · cases h
        exact .refreshFound hmem (by simpa using List.find?_some hr)
      · cases h
        exact .failed _

theorem exec_refreshRotate {record : RefreshToken} (h : stmt env st i (.refreshRotate record) c = some (st', q)) :
    Exec env st i c (.refreshRotate record) st' q := by
  simp only [stmt, failed] at h
  split at h
  · cases h
    exact .failed _
  · next hone =>
    cases h
    exact .rotated (not_not.mp hone)

theorem exec_issueRefresh {grant : Grant} {accessToken : String} {access : AccessToken}
    (h : stmt env st i (.issueRefresh grant accessToken access) c = some (st', q)) :
    Exec env st i c (.issueRefresh grant accessToken access) st' q := by
  simp only [stmt] at h
  split at h
  · cases h
  · next hd =>
    cases h
    exact .issued rfl (not_mem_of_drawn hd)

theorem exec_revokeFind {token : String} {clientId : Option String}
    (h : stmt env st i (.revokeFind token clientId) c = some (st', q)) :
    Exec env st i c (.revokeFind token clientId) st' q := by
  simp only [stmt] at h
  split at h
  · cases h
    exact .revoking (Or.inr ⟨_, rfl⟩)
  · split at h
    · cases h
      exact .revoking (Or.inl ⟨_, rfl⟩)
    · cases h
      exact .revoking (Or.inr ⟨_, rfl⟩)

end Branches

/-- **Every statement is one of the cases.** -/
theorem exec_of_stmt (h : stmt env st i p c = some (st', q)) : Exec env st i c p st' q := by
  cases p with
  | authorizeClient query => exact exec_authorizeClient h
  | authorizeCreate clientId redirectUri state codeChallenge scopes => exact exec_authorizeCreate h
  | approveFind id userId => exact exec_approveFind h
  | approveTx request userId => exact exec_approveTx h
  | denyFind id => exact exec_denyFind h
  | denyDelete request => exact exec_denyDelete h
  | exchangeBegin body => exact exec_exchangeBegin h
  | codeFind body code clientId redirectUri verifier resource => exact exec_codeFind h
  | codeClaim body record time => exact exec_codeClaim h
  | codeTouchClient grant => exact exec_codeTouchClient h
  | refreshFind token clientId resource => exact exec_refreshFind h
  | refreshReuse familyId =>
    cases h
    exact .reused
  | refreshRotate record => exact exec_refreshRotate h
  | issueAccess grant =>
    cases h
    exact .accessIssued rfl
  | issueRefresh grant accessToken access => exact exec_issueRefresh h
  | revokeFind token clientId => exact exec_revokeFind h
  | revokeRefresh record =>
    cases h
    exact .revoked
  | revokeAccess tokenHash clientId =>
    cases h
    exact .removed (.refl _) (.refl _) (.refl _)
  | cleanupRequests =>
    cases h
    exact .removed List.filter_sublist (.refl _) (.refl _)
  | cleanupCodes =>
    cases h
    exact .removed (.refl _) List.filter_sublist (.refl _)
  | cleanupRefreshTokens =>
    cases h
    exact .removed (.refl _) (.refl _) List.filter_sublist
  | cleanupAccessTokens =>
    cases h
    exact .removed (.refl _) (.refl _) (.refl _)
  | done result => cases h

/-- What has happened stays on record. -/
theorem log_suffix (h : Exec env st i c p st' q) : st.log <:+ st'.log := by
  cases h <;> first | exact List.suffix_refl _ | exact List.suffix_cons _ _

end AdWiki.Mcp
