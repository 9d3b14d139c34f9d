import AdWiki.Mcp.Origin

/-!
# The authorization-code flow

* `approved_by_caller`: an approval on record is that of a call `approve` for this request by this user.
* `authorization_code_flow`: in every interleaving an authorization request produces at most one code, a code at most
  one token family, and every issued pair belongs to the request and to the user whose call approved it; the exchange of
  the code met the request's redirect URI and challenge before the code expired. `requiredString` trims its value, so the
  redirect URI and the verifier are compared without surrounding white space (`padded_redirect_uri`).
-/

namespace AdWiki.Mcp

variable {env : Env}

/-- What `requiredString` returns is the trimmed string. -/
theorem requiredString_eq_ok {value : FieldValue} {name s : String} (h : requiredString value name = .ok s) :
    ∃ raw, value = .str raw ∧ Js.trim raw = s := by
  cases value with
  | str raw =>
    simp only [requiredString] at h
    split at h
    · cases h
    · exact ⟨raw, rfl, Except.ok.inj h⟩
  | _ => cases h

/-- A field of a body, up to surrounding white space. -/
def Shows (body : Body) (field value : String) : Prop := ∃ raw, body field = .str raw ∧ Js.trim raw = value

/-! ## Who approved -/

/-- What a call that is on its way to an approval was started for. -/
def CallOf (call : Call) : Point → Prop
  | .approveFind id userId => call = .approve id userId
  | .approveTx request userId => call = .approve request.id userId
  | _ => True

/-- Every approval on record is that of the call with its number. -/
def Approvals (calls : List Call) (st : Store) : Prop :=
  ∀ i userId request code, .approved i userId request code ∈ st.log → calls[i]? = some (.approve request.id userId)

theorem callOf_entry (call : Call) : CallOf call (entry call) := by
  cases call with
  | approve id userId => rfl
  | revoke body =>
    simp only [entry]
    split <;> trivial
  | _ => trivial

theorem approvals_append {calls : List Call} {call : Call} {st : Store} (h : Approvals calls st) :
    Approvals (calls ++ [call]) st := by
  intro i userId request code hmem
  have hcall := h i userId request code hmem
  rw [List.getElem?_append_left (List.getElem?_eq_some_iff.mp hcall).1, hcall]

theorem callOf_exec {calls : List Call} {call : Call} {st st' : Store} {i : Nat} {p q : Point} {c : Choice}
    (h : Exec env st i c p st' q) (hs : Approvals calls st) (hi : calls[i]? = some call) (hp : CallOf call p) :
    CallOf call q ∧ Approvals calls st' := by
  have hold : ∀ {e : Event}, e.approvedId = none → Approvals calls { st with log := e :: st.log } := by
    intro e he j userId request code hmem
    rcases List.mem_cons.mp hmem with rfl | hmem
    · cases he
    · exact hs j userId request code hmem
  cases h with
  | approving hmem hid =>
    refine ⟨?_, hs⟩
    show call = _
    rw [hid]
    exact hp
  | approved hnew hfresh hrow =>
    refine ⟨trivial, fun j userId request code hmem => ?_⟩
    rcases List.mem_cons.mp hmem with hmem | hmem
    · cases hmem
      exact hi.trans (congrArg some hp)
    · exact hs j userId request code hmem
  | requested | claimed | reused | rotated | issued => exact ⟨trivial, hold rfl⟩
  | exchanging hread =>
    refine ⟨?_, hs⟩
    cases q <;> trivial
  | revoking hq => rcases hq with ⟨record, rfl⟩ | ⟨tokenHash, rfl⟩ <;> exact ⟨trivial, hs⟩
  | _ => exact ⟨trivial, hs⟩

/-- Every approval on record was asked for by a call of its user. -/
theorem approved_by_caller {clients : List Client} {ls : List Label} {s : Sys}
    (h : Runs.run (step env) (init clients) ls = some s) : Approvals (Interleave.started ls) s.store := by
  have hinit : Interleave.Sourced CallOf Approvals [] (init clients) := ⟨rfl, by simp [init], by simp [Approvals, init]⟩
  exact (Interleave.sourced_run callOf_entry (fun _ _ _ hs => approvals_append hs)
    (fun _ _ _ _ _ _ _ _ hs hi hp hq => callOf_exec (exec_of_stmt hq) hs hi hp) hinit h).store

/-! ## The flow -/

/-- The pair belongs to the request as `userId` approved it. -/
structure BelongsTo (request : AuthorizationRequest) (userId : String) (access : AccessToken)
    (refresh : RefreshToken) : Prop where
  userId : access.userId = userId ∧ refresh.userId = userId
  clientId : access.oauthClientId = some request.clientId ∧ refresh.clientId = request.clientId
  resource : access.resource = request.resource ∧ refresh.resource = request.resource
  scopes : access.requestedScopes = request.scopes ∧ refresh.scopes = request.scopes

theorem belongsTo_of_owned {log : List Event} {call : Nat} {userId : String} {request : AuthorizationRequest}
    {code : AuthorizationCode} {body : Body} {time : Time} {access : AccessToken} {refresh : RefreshToken}
    (ho : OwnedBy env log (grantOfRefresh refresh) call userId request code body time) (hc : CodeFor userId request code)
    (ha : AccessFor (grantOfRefresh refresh) access) : BelongsTo request userId access refresh where
  userId := ⟨by rw [ha.userId, ho.userId, hc.userId], ho.userId.trans hc.userId⟩
  clientId := ⟨by rw [ha.clientId, ho.clientId, hc.clientId], ho.clientId.trans hc.clientId⟩
  resource := ⟨by rw [ha.resource, ho.resource, hc.resource], ho.resource.trans hc.resource⟩
  scopes := ⟨by rw [ha.scopes, ho.scopes, hc.scopes], ho.scopes.trans hc.scopes⟩

/-- **The authorization-code flow, in every interleaving.** A pair belongs to the user `userId` of the call
`approve request.id userId` that approved the request, which is the call with the number `i`. -/
theorem authorization_code_flow {clients : List Client} {ls : List Label} {s : Sys}
    (h : Runs.run (step env) (init clients) ls = some s) :
    (s.store.log.filterMap Event.approvedId).Nodup ∧ (s.store.log.filterMap Event.claimedHash).Nodup ∧
    ∀ access refresh, .issued access refresh ∈ s.store.log → ∃ i userId request code body time verifier,
      .requested request ∈ s.store.log ∧
      (Interleave.started ls)[i]? = some (.approve request.id userId) ∧ .approved i userId request code ∈ s.store.log ∧
      .claimed code.codeHash body time refresh.familyId ∈ s.store.log ∧
      BelongsTo request userId access refresh ∧
      Shows body "redirect_uri" request.redirectUri ∧
      Shows body "code_verifier" verifier ∧ env.s256 verifier = request.codeChallenge ∧
      time < code.expiresAt := by
  have hs := (sysInv_run h).store
  refine ⟨hs.requests.once, hs.codes.once, fun access refresh hissued => ?_⟩
  obtain ⟨⟨i, userId, request, code, body, time, ho⟩, ha⟩ := hs.refreshTokens.issued access refresh hissued
  have hc := hs.codes.approved i userId request code ho.approved
  obtain ⟨verifier, hverifier, hchallenge⟩ := ho.presented.verifier
  refine ⟨i, userId, request, code, body, time, verifier, hs.requests.approved i userId request code ho.approved,
    approved_by_caller h i userId request code ho.approved, ho.approved, ho.claimed, belongsTo_of_owned ho hc ha, ?_,
    requiredString_eq_ok hverifier, ?_, ho.presented.time⟩
  · exact hc.redirectUri ▸ requiredString_eq_ok ho.presented.redirectUri
  · exact hchallenge.trans hc.codeChallenge

/-! ## One flow -/

namespace Flow

/-- Digests that keep their argument. -/
def digests : Env where
  hash s := "sha256:" ++ s
  s256 s := s
  canonical s := some s
  config := ⟨"https://wiki/mcp", 600, 300, 900, 2592000⟩

def verifier : String := "0123456789-0123456789-0123456789-0123456789-"

def client : Client := ⟨"client", ["https://app/callback"]⟩

def query : Body
  | "response_type" => .str "code"
  | "client_id" => .str "client"
  | "redirect_uri" => .str "https://app/callback"
  | "code_challenge" => .str verifier
  | "code_challenge_method" => .str "S256"
  | "resource" => .str "https://wiki/mcp"
  | _ => .undefined

def codeBody (redirectUri : String) : Body
  | "grant_type" => .str "authorization_code"
  | "code" => .str "code"
  | "client_id" => .str "client"
  | "redirect_uri" => .str redirectUri
  | "code_verifier" => .str verifier
  | "resource" => .str "https://wiki/mcp"
  | _ => .undefined

/-- The request is created and approved, and its code exchanged for the first pair of the family. -/
def labels (redirectUri : String) : List Label :=
  [.start (.startAuthorization query), .exec 0 ⟨0, ""⟩, .exec 0 ⟨0, "request"⟩,
    .start (.approve "request" "user"), .exec 1 ⟨1, ""⟩, .exec 1 ⟨1, "code"⟩,
    .start (.exchange (codeBody redirectUri)), .exec 2 ⟨2, ""⟩, .exec 2 ⟨2, ""⟩, .exec 2 ⟨2, "family"⟩,
    .exec 2 ⟨2, ""⟩, .exec 2 ⟨2, "access"⟩, .exec 2 ⟨2, "refresh0"⟩]

/-- A pair is issued for the user. -/
def issued : Event → Bool
  | .issued access _ => access.userId == "user"
  | _ => false

end Flow

/-- The flow with the exact redirect URI: a pair is issued, and it belongs to the user who approved. -/
theorem authorization_code_flow_example : ∃ s,
    Runs.run (step Flow.digests) (init [Flow.client]) (Flow.labels "https://app/callback") = some s ∧
    ∃ access refresh, .issued access refresh ∈ s.store.log ∧ access.userId = "user" ∧
      ∃ (request : AuthorizationRequest) (code : AuthorizationCode) (body : Body) (time : Time),
      .claimed code.codeHash body time refresh.familyId ∈ s.store.log ∧
      BelongsTo request "user" access refresh ∧ Shows body "redirect_uri" request.redirectUri := by
  have hrun : (Runs.run (step Flow.digests) (init [Flow.client]) (Flow.labels "https://app/callback")).any fun s =>
      s.store.log.any Flow.issued := by
    decide +kernel
  obtain ⟨s, hs, hany⟩ := (Option.any_eq_true _ _).mp hrun
  obtain ⟨e, he, huser⟩ := List.any_eq_true.mp hany
  cases e with
  | issued access refresh =>
    obtain ⟨-, -, hflow⟩ := authorization_code_flow hs
    obtain ⟨i, userId, request, code, body, time, verifier, -, -, -, hclaimed, hbelongs, hshows, -⟩ :=
      hflow access refresh he
    have hid : access.userId = "user" := beq_iff_eq.mp huser
    obtain rfl : userId = "user" := hbelongs.userId.1.symm.trans hid
    exact ⟨s, hs, access, refresh, he, hid, request, code, body, time, hclaimed, hbelongs, hshows⟩
  | _ => cases huser

/-- A pair is issued in the run, and every claim presents the request's redirect URI behind a blank. -/
def Flow.padded (s : Sys) : Bool :=
  s.store.log.any (fun e => match e with | .issued _ _ => true | _ => false) &&
    s.store.log.all fun e =>
      match e with
      | .approved _ _ request _ => request.redirectUri == "https://app/callback"
      | .claimed _ body _ _ => body "redirect_uri" == .str " https://app/callback"
      | _ => true

theorem Flow.exists_padded : ∃ s,
    Runs.run (step Flow.digests) (init [Flow.client]) (Flow.labels " https://app/callback") = some s ∧
      Flow.padded s = true := by
  have hrun : (Runs.run (step Flow.digests) (init [Flow.client]) (Flow.labels " https://app/callback")).any
      Flow.padded := by
    decide +kernel
  simpa [Option.any_eq_true] using hrun

/-- A redirect URI that is not the request's, but for a leading blank, is accepted. -/
theorem padded_redirect_uri : ∃ s,
    Runs.run (step Flow.digests) (init [Flow.client]) (Flow.labels " https://app/callback") = some s ∧
    ∃ access refresh, .issued access refresh ∈ s.store.log ∧
      ∀ i userId request code h body time familyId, .approved i userId request code ∈ s.store.log →
        .claimed h body time familyId ∈ s.store.log → body "redirect_uri" ≠ .str request.redirectUri := by
  obtain ⟨s, hs, hpadded⟩ := Flow.exists_padded
  simp only [Flow.padded, Bool.and_eq_true, List.any_eq_true, List.all_eq_true] at hpadded
  obtain ⟨⟨e, he, hissued⟩, hall⟩ := hpadded
  cases e with
  | issued access refresh =>
    refine ⟨s, hs, access, refresh, he, fun i userId request code h body time familyId happroved hclaimed => ?_⟩
    have huri : request.redirectUri = "https://app/callback" := by simpa using hall _ happroved
    have hbody : body "redirect_uri" = .str " https://app/callback" := by simpa using hall _ hclaimed
    rw [huri, hbody]
    decide
  | _ => cases hissued

end AdWiki.Mcp
