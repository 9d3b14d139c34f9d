import AdWiki.Mcp.Statements

/-!
# Where codes, grants and refresh tokens come from

The invariant `Origins` of the store, one structure for each table, and what a call in progress has in hand
(`Known`). Both speak about the record of what has happened, which only grows, so a statement of one call never
invalidates what another call knows (`known_mono`).

* `Owned log grant`: the grant comes from one approved request through one claim of its code, by a caller who
  presented the request's redirect URI and verifier in time.
* `origins_run`: the invariant after every run.
-/

namespace AdWiki.Mcp

variable {env : Env}

/-! ## What is on record -/

@[simp] def Event.approvedId : Event → Option String
  | .approved _ _ request _ => some request.id
  | _ => none

@[simp] def Event.claimedHash : Event → Option String
  | .claimed codeHash _ _ _ => some codeHash
  | _ => none

@[simp] def Event.rotatedHash : Event → Option String
  | .rotated tokenHash => some tokenHash
  | _ => none

/-- The code row carries what the request asked for, and who approved it. -/
structure CodeFor (userId : String) (request : AuthorizationRequest) (code : AuthorizationCode) : Prop where
  userId : code.userId = userId
  clientId : code.clientId = request.clientId
  redirectUri : code.redirectUri = request.redirectUri
  codeChallenge : code.codeChallenge = request.codeChallenge
  resource : code.resource = request.resource
  scopes : code.scopes = request.scopes

/-- The body of an exchange shows the code, the redirect URI and a verifier for the challenge, before the code
expires. -/
structure Presented (env : Env) (code : AuthorizationCode) (body : Body) (time : Time) : Prop where
  value : ∃ value, requiredString (body "code") "code" = .ok value ∧ env.hash value = code.codeHash
  redirectUri : requiredString (body "redirect_uri") "redirect_uri" = .ok code.redirectUri
  verifier : ∃ value, requiredString (body "code_verifier") "code_verifier" = .ok value ∧
    env.s256 value = code.codeChallenge
  time : time < code.expiresAt

/-- A row of the code table, up to its use. -/
def CodeOf (log : List Event) (row : AuthorizationCode) : Prop :=
  ∃ call userId request code, .approved call userId request code ∈ log ∧ row = { code with usedAt := row.usedAt }

/-- The approval, the code and the claim that a grant comes from. -/
structure OwnedBy (env : Env) (log : List Event) (grant : Grant) (call : Nat) (userId : String)
    (request : AuthorizationRequest) (code : AuthorizationCode) (body : Body) (time : Time) : Prop where
  approved : .approved call userId request code ∈ log
  claimed : .claimed code.codeHash body time grant.familyId ∈ log
  presented : Presented env code body time
  userId : grant.userId = code.userId
  clientId : grant.clientId = code.clientId
  resource : grant.resource = code.resource
  scopes : grant.scopes = code.scopes

def Owned (env : Env) (log : List Event) (grant : Grant) : Prop :=
  ∃ call userId request code body time, OwnedBy env log grant call userId request code body time

/-- The access token of a pair. -/
structure AccessFor (grant : Grant) (access : AccessToken) : Prop where
  userId : access.userId = grant.userId
  clientId : access.oauthClientId = some grant.clientId
  resource : access.resource = grant.resource
  scopes : access.requestedScopes = grant.scopes

/-- A row of the refresh-token table, up to its revocation and rotation. -/
def RefreshOf (log : List Event) (row : RefreshToken) : Prop :=
  ∃ access refresh, .issued access refresh ∈ log ∧
    row = { refresh with revokedAt := row.revokedAt, rotatedAt := row.rotatedAt }

/-- What a call in progress relies on. -/
def Known (env : Env) (log : List Event) : Point → Prop
  | .approveTx request _ => .requested request ∈ log
  | .codeFind body code clientId redirectUri verifier resource =>
    ReadFrom body (.codeFind body code clientId redirectUri verifier resource)
  | .codeClaim body record time => CodeOf log record ∧ Presented env record body time
  | .codeTouchClient grant => Owned env log grant
  | .issueAccess grant => Owned env log grant
  | .issueRefresh grant _ access => Owned env log grant ∧ AccessFor grant access
  | .refreshReuse familyId => familyId ∈ log.filterMap Event.familyId
  | .refreshRotate record => RefreshOf log record
  | _ => True

/-! ## The invariant -/

/-- Every request row is on record, and an approved request is gone, so it is approved once. -/
structure RequestTable (st : Store) : Prop where
  logged : ∀ r ∈ st.requests, .requested r ∈ st.log
  approved : ∀ i u r code, .approved i u r code ∈ st.log → .requested r ∈ st.log
  gone : ∀ i u r code, .approved i u r code ∈ st.log → ∀ r' ∈ st.requests, r'.id ≠ r.id
  once : (st.log.filterMap Event.approvedId).Nodup

/-- Every code row comes from an approval, and a claimed code is used, so it is claimed once. -/
structure CodeTable (st : Store) : Prop where
  logged : ∀ row ∈ st.codes, CodeOf st.log row
  approved : ∀ i u r code, .approved i u r code ∈ st.log → CodeFor u r code
  claimed : ∀ h ∈ st.log.filterMap Event.claimedHash, h ∈ st.log.filterMap Event.codeHash
  used : ∀ h ∈ st.log.filterMap Event.claimedHash, ∀ row ∈ st.codes, row.codeHash = h → row.usedAt.isSome
  once : (st.log.filterMap Event.claimedHash).Nodup

/-- Every issued pair has an owner, and a rotated token is marked, so it is rotated once. -/
structure RefreshTable (env : Env) (st : Store) : Prop where
  issued : ∀ access refresh, .issued access refresh ∈ st.log →
    Owned env st.log (grantOfRefresh refresh) ∧ AccessFor (grantOfRefresh refresh) access
  logged : ∀ row ∈ st.refreshTokens, RefreshOf st.log row
  keys : (st.refreshTokens.map RefreshToken.tokenHash).Nodup
  hashes : (st.log.filterMap Event.refreshHash).Nodup
  rotated : ∀ h ∈ st.log.filterMap Event.rotatedHash, h ∈ st.log.filterMap Event.refreshHash
  marked : ∀ h ∈ st.log.filterMap Event.rotatedHash, ∀ row ∈ st.refreshTokens, row.tokenHash = h → row.rotatedAt.isSome
  once : (st.log.filterMap Event.rotatedHash).Nodup

structure Origins (env : Env) (st : Store) : Prop where
  requests : RequestTable st
  codes : CodeTable st
  refreshTokens : RefreshTable env st

/-! ## What is known stays known -/

variable {log log' : List Event}

theorem CodeOf.mono (hlog : log <:+ log') {row : AuthorizationCode} (h : CodeOf log row) : CodeOf log' row := by
  obtain ⟨call, userId, request, code, hmem, hrow⟩ := h
  exact ⟨call, userId, request, code, hlog.mem hmem, hrow⟩

theorem RefreshOf.mono (hlog : log <:+ log') {row : RefreshToken} (h : RefreshOf log row) : RefreshOf log' row := by
  obtain ⟨access, refresh, hmem, hrow⟩ := h
  exact ⟨access, refresh, hlog.mem hmem, hrow⟩

theorem Owned.mono (hlog : log <:+ log') {grant : Grant} (h : Owned env log grant) : Owned env log' grant := by
  obtain ⟨call, userId, request, code, body, time, h⟩ := h
  exact ⟨call, userId, request, code, body, time,
    { h with approved := hlog.mem h.approved, claimed := hlog.mem h.claimed }⟩

theorem known_mono (hlog : log <:+ log') {p : Point} (h : Known env log p) : Known env log' p := by
  cases p with
  | approveTx request userId => exact hlog.mem h
  | codeFind body code clientId redirectUri verifier resource => exact h
  | codeClaim body record time => exact ⟨h.1.mono hlog, h.2⟩
  | codeTouchClient grant => exact Owned.mono hlog h
  | issueAccess grant => exact Owned.mono hlog h
  | issueRefresh grant accessToken access => exact ⟨h.1.mono hlog, h.2⟩
  | refreshReuse familyId => exact (hlog.sublist.filterMap Event.familyId).mem h
  | refreshRotate record => exact RefreshOf.mono hlog h
  | _ => trivial

/-! ## One statement

A statement that leaves a table's rows and the events about it alone keeps the table's part of the invariant (the
`frame` lemmas); the step lemmas treat the statements that do not. -/

variable {st st' : Store} {i : Nat} {p q : Point} {c : Choice}

/-- `log'` has at most one event more, and none of the kinds `kinds`. -/
def Quiet (kinds : List (Event → Option String)) (log log' : List Event) : Prop :=
  log' = log ∨ ∃ e, log' = e :: log ∧ ∀ kind ∈ kinds, kind e = none

theorem Quiet.suffix {kinds : List (Event → Option String)} (h : Quiet kinds log log') : log <:+ log' := by
  rcases h with rfl | ⟨e, rfl, -⟩
  · exact List.suffix_refl _
  · exact List.suffix_cons _ _

theorem Quiet.filterMap {kinds : List (Event → Option String)} (h : Quiet kinds log log') {kind : Event → Option String}
    (hkind : kind ∈ kinds) : log'.filterMap kind = log.filterMap kind := by
  rcases h with rfl | ⟨e, rfl, he⟩
  · rfl
  · rw [List.filterMap_cons_none (he kind hkind)]

theorem Quiet.mem {kinds : List (Event → Option String)} (h : Quiet kinds log log') (kind : Event → Option String)
    (hkind : kind ∈ kinds) {e : Event} (he : (kind e).isSome) (hmem : e ∈ log') : e ∈ log := by
  rcases h with rfl | ⟨e', rfl, hno⟩
  · exact hmem
  · rcases List.mem_cons.mp hmem with rfl | hmem
    · rw [hno kind hkind] at he
      cases he
    · exact hmem

theorem RequestTable.frame (hs : RequestTable st) (hrows : ∀ r ∈ st'.requests, r ∈ st.requests)
    (hlog : Quiet [Event.approvedId] st.log st'.log) : RequestTable st' where
  logged r hr := hlog.suffix.mem (hs.logged r (hrows r hr))
  approved i u r code hr := hlog.suffix.mem (hs.approved i u r code (hlog.mem Event.approvedId (by simp) rfl hr))
  gone i u r code hr r' hr' := hs.gone i u r code (hlog.mem Event.approvedId (by simp) rfl hr) r' (hrows r' hr')
  once := by
    rw [hlog.filterMap (by simp)]
    exact hs.once

theorem requestTable_exec (h : Exec env st i c p st' q) (hs : RequestTable st) (hk : Known env st.log p) :
    RequestTable st' := by
  cases h with
  | requested hnew hfresh =>
    rename_i request a
    have hid : ∀ i u r code, .approved i u r code ∈ st.log → request.id ≠ r.id := by
      intro i u r code hr he
      exact hfresh (List.mem_filterMap.mpr ⟨_, hs.approved i u r code hr, by simp [he]⟩)
    refine ⟨fun r hr => ?_, fun i u r code hr => ?_, fun i u r code hr r' hr' => ?_, hs.once⟩
    · rcases List.mem_append.mp hr with hr | hr
      · exact List.mem_cons_of_mem _ (hs.logged r hr)
      · rw [List.mem_singleton.mp hr]
        exact List.mem_cons_self
    · exact List.mem_cons_of_mem _ (hs.approved i u r code (by simpa using hr))
    · have hr : .approved i u r code ∈ st.log := by simpa using hr
      rcases List.mem_append.mp hr' with hr' | hr'
      · exact hs.gone i u r code hr r' hr'
      · rw [List.mem_singleton.mp hr']
        exact hid i u r code hr
  | approved hnew hfresh hrow =>
    rename_i request userId code a
    obtain ⟨row, hrow, hid⟩ := hrow
    refine ⟨fun r hr => ?_, fun i u r code' hr => ?_, fun i u r code' hr r' hr' => ?_, ?_⟩
    · exact List.mem_cons_of_mem _ (hs.logged r (Rows.mem_deleteMany.mp hr).1)
    · rcases List.mem_cons.mp hr with hr | hr
      · cases hr
        exact List.mem_cons_of_mem _ hk
      · exact List.mem_cons_of_mem _ (hs.approved i u r code' hr)
    · obtain ⟨hr', hne⟩ := Rows.mem_deleteMany.mp hr'
      rcases List.mem_cons.mp hr with hr | hr
      · cases hr
        simpa using hne
      · exact hs.gone i u r code' hr r' hr'
    -- the row of the request is still there, so it has not been approved before
    · refine List.nodup_cons.mpr ⟨fun hmem => ?_, hs.once⟩
      obtain ⟨e, he, heq⟩ := List.mem_filterMap.mp hmem
      cases e with
      | approved i u r code' =>
        simp only [Event.approvedId, Option.some.injEq] at heq
        exact hs.gone i u r code' he row hrow (hid.trans heq.symm)
      | _ => cases heq
  | removed hrequests hcodes hrefresh => exact hs.frame (fun r hr => hrequests.mem hr) (Or.inl rfl)
  | claimed => exact hs.frame (fun _ hr => hr) (Or.inr ⟨_, rfl, by simp⟩)
  | reused => exact hs.frame (fun _ hr => hr) (Or.inr ⟨_, rfl, by simp⟩)
  | rotated => exact hs.frame (fun _ hr => hr) (Or.inr ⟨_, rfl, by simp⟩)
  | issued => exact hs.frame (fun _ hr => hr) (Or.inr ⟨_, rfl, by simp⟩)
  | _ => exact hs.frame (fun _ hr => hr) (Or.inl rfl)

theorem CodeTable.frame (hs : CodeTable st) (hrows : ∀ row ∈ st'.codes, row ∈ st.codes)
    (hlog : Quiet [Event.approvedId, Event.codeHash, Event.claimedHash] st.log st'.log) : CodeTable st' where
  logged row hrow := (hs.logged row (hrows row hrow)).mono hlog.suffix
  approved i u r code hr := hs.approved i u r code (hlog.mem Event.approvedId (by simp) rfl hr)
  claimed := by
    rw [hlog.filterMap (by simp), hlog.filterMap (by simp)]
    exact hs.claimed
  used := by
    rw [hlog.filterMap (by simp)]
    exact fun h hh row hrow => hs.used h hh row (hrows row hrow)
  once := by
    rw [hlog.filterMap (by simp)]
    exact hs.once

/-- A row of the updated table of codes is a row of the old one, used or not. -/
theorem of_mem_use {record row : AuthorizationCode} {now : Time} {codes : List AuthorizationCode}
    (h : row ∈ Rows.updateMany (unused record) (AuthorizationCode.use now) codes) :
    ∃ old ∈ codes, row = { old with usedAt := row.usedAt } ∧ (old.usedAt.isSome → row.usedAt.isSome) ∧
      (old.codeHash = record.codeHash → row.usedAt.isSome) := by
  rcases Rows.of_mem_updateMany h with ⟨hmem, hp⟩ | ⟨old, hmem, -, rfl⟩
  · refine ⟨row, hmem, rfl, id, fun hh => ?_⟩
    simpa [unused, hh, Option.isSome_iff_ne_none] using hp
  · exact ⟨old, hmem, rfl, fun _ => rfl, fun _ => rfl⟩

theorem codeHash_mem {row : AuthorizationCode} (h : CodeOf log row) : row.codeHash ∈ log.filterMap Event.codeHash := by
  obtain ⟨call, userId, request, code, hmem, hrow⟩ := h
  exact List.mem_filterMap.mpr ⟨_, hmem, by rw [hrow]; rfl⟩

theorem codeTable_exec (h : Exec env st i c p st' q) (hs : CodeTable st) (hk : Known env st.log p) :
    CodeTable st' := by
  cases h with
  | approved hnew hfresh hrow =>
    rename_i request userId code a
    refine ⟨fun row hr => ?_, fun i u r code' hr => ?_, fun h hh => List.mem_cons_of_mem _ (hs.claimed h hh),
      fun h hh row hr he => ?_, hs.once⟩
    · rcases List.mem_append.mp hr with hr | hr
      · exact (hs.logged row hr).mono (List.suffix_cons _ _)
      · rw [List.mem_singleton.mp hr]
        exact ⟨i, userId, request, code, List.mem_cons_self, rfl⟩
    · rcases List.mem_cons.mp hr with hr | hr
      · cases hr
        subst hnew
        exact ⟨rfl, rfl, rfl, rfl, rfl, rfl⟩
      · exact hs.approved i u r code' hr
    -- a claimed hash has been drawn, and the hash of the new row has not
    · rcases List.mem_append.mp hr with hr | hr
      · exact hs.used h hh row hr he
      · rw [List.mem_singleton.mp hr] at he
        exact absurd (he ▸ hs.claimed h hh) hfresh
  | claimed hfresh hone =>
    rename_i body record time
    have hcode : record.codeHash ∈ st.log.filterMap Event.codeHash := codeHash_mem hk.1
    refine ⟨fun row hr => ?_, fun i u r code hr => hs.approved i u r code (by simpa using hr), fun h hh => ?_,
      fun h hh row hr he => ?_, ?_⟩
    · obtain ⟨old, hold, hrow, -, -⟩ := of_mem_use hr
      obtain ⟨call, userId, request, code, hmem, hcode⟩ := hs.logged old hold
      exact ⟨call, userId, request, code, List.mem_cons_of_mem _ hmem, by rw [hrow, hcode]⟩
    · rcases List.mem_cons.mp hh with rfl | hh
      · exact hcode
      · exact hs.claimed h hh
    · obtain ⟨old, hold, hrow, hused, hclaim⟩ := of_mem_use hr
      have hhash : old.codeHash = h := by rw [← he, hrow]
      rcases List.mem_cons.mp hh with rfl | hh
      · exact hclaim hhash
      · exact hused (hs.used h hh old hold hhash)
    -- the claimed row was unused, so its hash has not been claimed before
    · refine List.nodup_cons.mpr ⟨fun hmem => ?_, hs.once⟩
      obtain ⟨row, hrow, hun⟩ := List.countP_pos_iff.mp (by omega : 0 < st.codes.countP (unused record))
      simp only [unused, Bool.and_eq_true, beq_iff_eq, Option.isNone_iff_eq_none] at hun
      have hsome := hs.used record.codeHash hmem row hrow hun.1
      rw [hun.2] at hsome
      cases hsome
  | removed hrequests hcodes hrefresh => exact hs.frame (fun r hr => hcodes.mem hr) (Or.inl rfl)
  | requested => exact hs.frame (fun _ hr => hr) (Or.inr ⟨_, rfl, by simp⟩)
  | reused => exact hs.frame (fun _ hr => hr) (Or.inr ⟨_, rfl, by simp⟩)
  | rotated => exact hs.frame (fun _ hr => hr) (Or.inr ⟨_, rfl, by simp⟩)
  | issued => exact hs.frame (fun _ hr => hr) (Or.inr ⟨_, rfl, by simp⟩)
  | _ => exact hs.frame (fun _ hr => hr) (Or.inl rfl)

theorem RefreshTable.frame (hs : RefreshTable env st)
    (hrows : ∀ row ∈ st'.refreshTokens, ∃ old ∈ st.refreshTokens,
      row = { old with revokedAt := row.revokedAt, rotatedAt := row.rotatedAt } ∧
        (old.rotatedAt.isSome → row.rotatedAt.isSome))
    (hkeys : (st'.refreshTokens.map RefreshToken.tokenHash).Sublist (st.refreshTokens.map RefreshToken.tokenHash))
    (hlog : Quiet [Event.refreshHash, Event.rotatedHash] st.log st'.log) : RefreshTable env st' where
  issued access refresh h := by
    obtain ⟨howned, haccess⟩ := hs.issued access refresh (hlog.mem Event.refreshHash (by simp) rfl h)
    exact ⟨howned.mono hlog.suffix, haccess⟩
  logged row hrow := by
    obtain ⟨old, hold, he, -⟩ := hrows row hrow
    obtain ⟨access, refresh, hmem, hr⟩ := hs.logged old hold
    exact ⟨access, refresh, hlog.suffix.mem hmem, by rw [he, hr]⟩
  keys := hs.keys.sublist hkeys
  hashes := by
    rw [hlog.filterMap (by simp)]
    exact hs.hashes
  rotated := by
    rw [hlog.filterMap (by simp), hlog.filterMap (by simp)]
    exact hs.rotated
  marked := by
    rw [hlog.filterMap (by simp)]
    intro h hh row hrow hhash
    obtain ⟨old, hold, he, hmark⟩ := hrows row hrow
    exact hmark (hs.marked h hh old hold (by rw [← hhash, he]))
  once := by
    rw [hlog.filterMap (by simp)]
    exact hs.once

/-- `f` writes the marks of a row, and does not take back a rotation. -/
def Marks (f : RefreshToken → RefreshToken) : Prop :=
  ∀ r, f r = { r with revokedAt := (f r).revokedAt, rotatedAt := (f r).rotatedAt } ∧
    (r.rotatedAt.isSome → (f r).rotatedAt.isSome)

theorem marks_revoke (now : Time) : Marks (RefreshToken.revoke now) := fun _ => ⟨rfl, id⟩

theorem marks_rotate (now : Time) : Marks (RefreshToken.rotate now) := fun _ => ⟨rfl, fun _ => rfl⟩

/-- A row of the table after a revocation or a rotation is a row of the old table with other marks. -/
theorem of_mem_mark {f : RefreshToken → RefreshToken} (hf : Marks f) {pred : RefreshToken → Bool}
    {rows : List RefreshToken} {row : RefreshToken} (h : row ∈ Rows.updateMany pred f rows) :
    ∃ old ∈ rows, row = { old with revokedAt := row.revokedAt, rotatedAt := row.rotatedAt } ∧
      (old.rotatedAt.isSome → row.rotatedAt.isSome) := by
  rcases Rows.of_mem_updateMany h with ⟨hmem, -⟩ | ⟨old, hmem, -, rfl⟩
  · exact ⟨row, hmem, rfl, id⟩
  · exact ⟨old, hmem, hf old⟩

theorem map_mark {f : RefreshToken → RefreshToken} (hf : Marks f) (pred : RefreshToken → Bool)
    (rows : List RefreshToken) :
    (Rows.updateMany pred f rows).map RefreshToken.tokenHash = rows.map RefreshToken.tokenHash :=
  Rows.map_updateMany fun r _ => by rw [(hf r).1]

theorem tokenHash_mem {row : RefreshToken} (h : RefreshOf log row) :
    row.tokenHash ∈ log.filterMap Event.refreshHash := by
  obtain ⟨access, refresh, hmem, hrow⟩ := h
  exact List.mem_filterMap.mpr ⟨_, hmem, by rw [hrow]; rfl⟩

/-- The row that a rotation matches. -/
theorem exists_rotatable {record : RefreshToken} {rows : List RefreshToken} (h : rows.countP (rotatable record) = 1) :
    ∃ row ∈ rows, row.tokenHash = record.tokenHash ∧ row.revokedAt = none ∧ row.rotatedAt = none := by
  obtain ⟨row, hrow, hr⟩ := List.countP_pos_iff.mp (by omega : 0 < rows.countP (rotatable record))
  simp only [rotatable, Bool.and_eq_true, beq_iff_eq, Option.isNone_iff_eq_none] at hr
  exact ⟨row, hrow, hr.1.1, hr.1.2, hr.2⟩

theorem refreshTable_exec (h : Exec env st i c p st' q) (hs : RefreshTable env st) (hk : Known env st.log p) :
    RefreshTable env st' := by
  cases h with
  | rotated hone =>
    rename_i record
    have hdrawn : record.tokenHash ∈ st.log.filterMap Event.refreshHash := tokenHash_mem hk
    obtain ⟨live, hlive, hhash, hrevoked, hrotated⟩ := exists_rotatable hone
    refine ⟨fun access refresh h => ?_, fun row hr => ?_, ?_, hs.hashes, fun h hh => ?_, fun h hh row hr he => ?_, ?_⟩
    · obtain ⟨howned, haccess⟩ := hs.issued access refresh (by simpa using h)
      exact ⟨howned.mono (List.suffix_cons _ _), haccess⟩
    · obtain ⟨old, hold, hrow, -⟩ := of_mem_mark (marks_rotate c.now) hr
      obtain ⟨access, refresh, hmem, he⟩ := hs.logged old hold
      exact ⟨access, refresh, List.mem_cons_of_mem _ hmem, by rw [hrow, he]⟩
    · rw [map_mark (marks_rotate c.now)]
      exact hs.keys
    · rcases List.mem_cons.mp hh with rfl | hh
      · exact hdrawn
      · exact hs.rotated h hh
    · rcases Rows.of_mem_updateMany hr with ⟨hr, hp⟩ | ⟨old, -, -, rfl⟩
      · rcases List.mem_cons.mp hh with rfl | hh
        -- the row with this hash is the live one, which the statement matches
        · have hrow : row = live := Rows.eq_of_key hs.keys hr hlive (he.trans hhash.symm)
          simp [rotatable, hrow, hhash, hrevoked, hrotated] at hp
        · exact hs.marked h hh row hr he
      · rfl
    -- the rotated row was not marked, so its hash has not been rotated before
    · refine List.nodup_cons.mpr ⟨fun hmem => ?_, hs.once⟩
      have hsome := hs.marked record.tokenHash hmem live hlive hhash
      rw [hrotated] at hsome
      cases hsome
  | issued hnew hfresh =>
    rename_i grant accessToken access refresh a
    obtain ⟨howned, haccess⟩ := hk
    have hrows : ∀ row ∈ st.refreshTokens, row.tokenHash ≠ refresh.tokenHash := fun row hr he =>
      hfresh (he ▸ tokenHash_mem (hs.logged row hr))
    have hgrant : grantOfRefresh refresh = grant := by rw [hnew]; rfl
    refine ⟨fun access' refresh' h => ?_, fun row hr => ?_, Rows.nodup_insert hs.keys hrows,
      List.nodup_cons.mpr ⟨hfresh, hs.hashes⟩, fun h hh => List.mem_cons_of_mem _ (hs.rotated h hh),
      fun h hh row hr he => ?_, hs.once⟩
    · rcases List.mem_cons.mp h with h | h
      · cases h
        rw [hgrant]
        exact ⟨howned.mono (List.suffix_cons _ _), haccess⟩
      · obtain ⟨howned', haccess'⟩ := hs.issued access' refresh' h
        exact ⟨howned'.mono (List.suffix_cons _ _), haccess'⟩
    · rcases List.mem_append.mp hr with hr | hr
      · exact (hs.logged row hr).mono (List.suffix_cons _ _)
      · rw [List.mem_singleton.mp hr]
        exact ⟨access, refresh, List.mem_cons_self, rfl⟩
    -- a rotated hash has been drawn, and the hash of the new row has not
    · rcases List.mem_append.mp hr with hr | hr
      · exact hs.marked h hh row hr he
      · rw [List.mem_singleton.mp hr] at he
        exact absurd (he ▸ hs.rotated h hh) hfresh
  | reused =>
    exact hs.frame (fun _ hr => of_mem_mark (marks_revoke c.now) hr)
      (by rw [map_mark (marks_revoke c.now)]) (Or.inr ⟨_, rfl, by simp⟩)
  | revoked =>
    exact hs.frame (fun _ hr => of_mem_mark (marks_revoke c.now) hr)
      (by rw [map_mark (marks_revoke c.now)]) (Or.inl rfl)
  | removed hrequests hcodes hrefresh =>
    exact hs.frame (fun r hr => ⟨r, hrefresh.mem hr, rfl, id⟩) (hrefresh.map _) (Or.inl rfl)
  | requested => exact hs.frame (fun r hr => ⟨r, hr, rfl, id⟩) (.refl _) (Or.inr ⟨_, rfl, by simp⟩)
  | approved => exact hs.frame (fun r hr => ⟨r, hr, rfl, id⟩) (.refl _) (Or.inr ⟨_, rfl, by simp⟩)
  | claimed => exact hs.frame (fun r hr => ⟨r, hr, rfl, id⟩) (.refl _) (Or.inr ⟨_, rfl, by simp⟩)
  | _ => exact hs.frame (fun r hr => ⟨r, hr, rfl, id⟩) (.refl _) (Or.inl rfl)

/-- What a statement leaves its own call with. -/
theorem known_exec (h : Exec env st i c p st' q) (hs : Origins env st) (hk : Known env st.log p) :
    Known env st'.log q := by
  cases h with
  | approving hmem => exact hs.requests.logged _ hmem
  | exchanging hread =>
    rename_i body
    cases q with
    | codeFind body' code clientId redirectUri verifier resource => exact hread.1 ▸ hread
    | refreshFind token clientId resource => trivial
    | _ => cases hread
  | codeFound hmem hhash huse =>
    obtain ⟨-, htime, -, hredirect, -, hverifier⟩ := codeUsable_ok huse
    obtain ⟨-, hcode, -, hpresented, hread, -⟩ := hk
    exact ⟨hs.codes.logged _ hmem, ⟨_, hcode, hhash.symm⟩, hredirect ▸ hpresented, ⟨_, hread, hverifier⟩, htime⟩
  | claimed hfresh hone =>
    rename_i body record time
    obtain ⟨⟨call, userId, request, code, happroved, hrow⟩, hp⟩ := hk
    have hcode : code.codeHash = record.codeHash := by rw [hrow]
    refine ⟨call, userId, request, code, body, time, ⟨List.mem_cons_of_mem _ happroved, ?_, ?_, ?_, ?_, ?_, ?_⟩⟩
    · rw [hcode]
      exact List.mem_cons_self
    · rw [hrow] at hp
      exact ⟨hp.value, hp.redirectUri, hp.verifier, hp.time⟩
    all_goals rw [hrow]; rfl
  | touched => exact hk
  | reuseFound hmem hrot =>
    obtain ⟨access, refresh, hissued, hrow⟩ := hs.refreshTokens.logged _ hmem
    obtain ⟨⟨call, userId, request, code, body, time, ho⟩, -⟩ := hs.refreshTokens.issued access refresh hissued
    exact List.mem_filterMap.mpr ⟨_, ho.claimed, by rw [hrow]; rfl⟩
  | refreshFound hmem hhash => exact hs.refreshTokens.logged _ hmem
  | rotated hone =>
    rename_i record
    obtain ⟨access, refresh, hissued, hrow⟩ := hk
    have hgrant : grantOfRefresh record = grantOfRefresh refresh := by rw [hrow]; rfl
    show Owned env _ (grantOfRefresh record)
    rw [hgrant]
    exact (hs.refreshTokens.issued access refresh hissued).1.mono (List.suffix_cons _ _)
  | accessIssued hnew => exact ⟨hk, by rw [hnew]; exact ⟨rfl, rfl, rfl, rfl⟩⟩
  | revoking hq => rcases hq with ⟨record, rfl⟩ | ⟨tokenHash, rfl⟩ <;> trivial
  | _ => trivial

/-! ## Every run -/

/-- The invariant of the system: the tables are in order, and every call in progress knows what it relies on. -/
def SysInv (env : Env) : Sys → Prop := Interleave.Inv (Origins env) fun _ st p => Known env st.log p

theorem sysInv_init (clients : List Client) : SysInv env (init clients) where
  store :=
    { requests := ⟨by simp [init], by simp [init], by simp [init], List.nodup_nil⟩
      codes := ⟨by simp [init], by simp [init], by simp [init], by simp [init], List.nodup_nil⟩
      refreshTokens := ⟨by simp [init], by simp [init], List.nodup_nil, List.nodup_nil, by simp [init],
        by simp [init], List.nodup_nil⟩ }
  calls i p hp := by simp [init] at hp

theorem sysInv_step (s : Sys) (l : Label) (t : Sys) (hs : SysInv env s) (h : step env s l = some t) :
    SysInv env t := by
  refine Interleave.inv_step (P := fun _ _ => True) ?_ ?_ l hs trivial h
  · intro i st r _
    cases r with
    | revoke body =>
      simp only [entry]
      split <;> trivial
    | _ => trivial
  · intro s i p c st q hs _ hp hq
    have he := exec_of_stmt hq
    have hk := hs.calls i p hp
    exact ⟨⟨requestTable_exec he hs.store.requests hk, codeTable_exec he hs.store.codes hk,
      refreshTable_exec he hs.store.refreshTokens hk⟩, known_exec he hs.store hk,
      fun j p' _ hp' => known_mono (log_suffix he) (hs.calls j p' hp')⟩

theorem sysInv_run {clients : List Client} {ls : List Label} {s : Sys}
    (h : Runs.run (step env) (init clients) ls = some s) : SysInv env s :=
  Runs.inv_run sysInv_step (sysInv_init clients) h

end AdWiki.Mcp
