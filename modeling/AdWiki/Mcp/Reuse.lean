import AdWiki.Mcp.CodeFlow

/-!
# Reuse of a rotated refresh token

A rotation and the insertion of its successor are different statements, so the statement that revokes a family can
fall between them and miss the successor (`reuse_between_rotate_and_insert`). Where it does not (`reuseAlone`), the
family stays revoked.

* `refresh_token_reuse`: every token is rotated at most once, and in the runs whose family revocations are `reuseAlone`
  a family with a detected reuse has no row that is not revoked, in every state from the answer on.
-/

namespace AdWiki.Mcp

variable {env : Env} {st st' : Store} {i : Nat} {p q : Point} {c : Choice}

/-- The family that a call between its claim or rotation and the end of its insertions adds a token to. -/
def Point.issuing : Point → Option String
  | .codeTouchClient grant => some grant.familyId
  | .issueAccess grant => some grant.familyId
  | .issueRefresh grant _ _ => some grant.familyId
  | _ => none

/-- The statement that revokes a family runs while no call is about to insert a token of the family. -/
def reuseAlone (s : Sys) : Label → Bool
  | .exec i _ =>
    match s.calls[i]? with
    | some (.refreshReuse familyId) => s.calls.all fun p => p.issuing != some familyId
    | _ => true
  | .start _ => true

/-- Families with a detected reuse were opened by a claim and have only revoked rows. -/
structure Closed (st : Store) : Prop where
  opened : ∀ f, .reused f ∈ st.log → f ∈ st.log.filterMap Event.familyId
  revoked : ∀ f, .reused f ∈ st.log → ∀ row ∈ st.refreshTokens, row.familyId = f → row.revokedAt.isSome

/-- A call does not add a token to such a family. -/
def Open (st : Store) (p : Point) : Prop := ∀ f, p.issuing = some f → .reused f ∉ st.log

theorem Closed.frame (hs : Closed st) (hlog : st.log <:+ st'.log)
    (hreused : ∀ f, .reused f ∈ st'.log → .reused f ∈ st.log)
    (hrows : ∀ row ∈ st'.refreshTokens, ∃ old ∈ st.refreshTokens,
      old.familyId = row.familyId ∧ (old.revokedAt.isSome → row.revokedAt.isSome)) : Closed st' where
  opened f hf := (hlog.sublist.filterMap Event.familyId).mem (hs.opened f (hreused f hf))
  revoked f hf row hrow he := by
    obtain ⟨old, hold, hfamily, hmark⟩ := hrows row hrow
    exact hmark (hs.revoked f (hreused f hf) old hold (hfamily.trans he))

/-- Rows with other marks, and more of them revoked. -/
theorem rows_mark {f : RefreshToken → RefreshToken} {pred : RefreshToken → Bool} {rows : List RefreshToken}
    (hf : ∀ r, (f r).familyId = r.familyId ∧ (f r).revokedAt.isSome) :
    ∀ row ∈ Rows.updateMany pred f rows, ∃ old ∈ rows,
      old.familyId = row.familyId ∧ (old.revokedAt.isSome → row.revokedAt.isSome) := by
  intro row hrow
  rcases Rows.of_mem_updateMany hrow with ⟨hmem, -⟩ | ⟨old, hmem, -, rfl⟩
  · exact ⟨row, hmem, rfl, id⟩
  · exact ⟨old, hmem, (hf old).1.symm, fun _ => (hf old).2⟩

theorem closed_exec (h : Exec env st i c p st' q) (hs : Closed st) (hopen : Open st p) (hk : Known env st.log p) :
    Closed st' := by
  cases h with
  | reused =>
    rename_i familyId e
    refine ⟨fun f hf => ?_, fun f hf row hrow he => ?_⟩
    · rcases List.mem_cons.mp hf with hf | hf
      · cases hf
        exact hk
      · exact hs.opened f hf
    · rcases Rows.of_mem_updateMany hrow with ⟨hmem, hp⟩ | ⟨old, -, -, rfl⟩
      · rcases List.mem_cons.mp hf with hf | hf
        · cases hf
          simpa [liveIn, he, Option.isSome_iff_ne_none] using hp
        · exact hs.revoked f hf row hmem he
      · rfl
  | issued hnew hfresh =>
    rename_i grant accessToken access refresh a
    refine ⟨fun f hf => hs.opened f (by simpa using hf), fun f hf row hrow he => ?_⟩
    have hf : .reused f ∈ st.log := by simpa using hf
    rcases List.mem_append.mp hrow with hrow | hrow
    · exact hs.revoked f hf row hrow he
    · rw [List.mem_singleton.mp hrow, hnew] at he
      exact absurd hf (hopen f (congrArg some he))
  | claimed => exact hs.frame (List.suffix_cons _ _) (fun f hf => by simpa using hf) fun r hr => ⟨r, hr, rfl, id⟩
  | requested => exact hs.frame (List.suffix_cons _ _) (fun f hf => by simpa using hf) fun r hr => ⟨r, hr, rfl, id⟩
  | approved => exact hs.frame (List.suffix_cons _ _) (fun f hf => by simpa using hf) fun r hr => ⟨r, hr, rfl, id⟩
  | rotated => exact hs.frame (List.suffix_cons _ _) (fun f hf => by simpa using hf) (rows_mark fun r => ⟨rfl, rfl⟩)
  | revoked => exact hs.frame (List.suffix_refl _) (fun _ hf => hf) (rows_mark fun r => ⟨rfl, rfl⟩)
  | removed hrequests hcodes hrefresh =>
    exact hs.frame (List.suffix_refl _) (fun _ hf => hf) fun r hr => ⟨r, hrefresh.mem hr, rfl, id⟩
  | _ => exact hs.frame (List.suffix_refl _) (fun _ hf => hf) fun r hr => ⟨r, hr, rfl, id⟩

/-- A token hash was issued once, so rows and records with one hash are of one family. -/
theorem familyId_eq_of_tokenHash {log : List Event} {row record : RefreshToken}
    (hkeys : (log.filterMap Event.refreshHash).Nodup) (hrow : RefreshOf log row) (hrecord : RefreshOf log record)
    (h : row.tokenHash = record.tokenHash) : row.familyId = record.familyId := by
  obtain ⟨access, refresh, hmem, hr⟩ := hrow
  obtain ⟨access', refresh', hmem', hr'⟩ := hrecord
  have hhash : refresh'.tokenHash = refresh.tokenHash := by
    rw [hr, hr'] at h
    exact h.symm
  cases Rows.eq_of_filterMap hkeys hmem hmem' rfl (congrArg some hhash)
  rw [hr, hr']

/-- The next point of a call: a claim opens a new family, and a rotation finds a row that is not revoked. -/
theorem open_exec (h : Exec env st i c p st' q) (hs : Closed st) (ho : Origins env st) (hopen : Open st p)
    (hk : Known env st.log p) : Open st' q := by
  cases h with
  | claimed hfresh hone =>
    intro f hf hmem
    cases hf
    rcases List.mem_cons.mp hmem with hmem | hmem
    · cases hmem
    · exact hfresh (hs.opened _ hmem)
  | rotated hone =>
    rename_i record
    intro f hf hmem
    obtain ⟨row, hrow, hhash, hlive, -⟩ := exists_rotatable hone
    have hfamily : row.familyId = record.familyId :=
      familyId_eq_of_tokenHash ho.refreshTokens.hashes (ho.refreshTokens.logged row hrow) hk hhash
    have hrevoked := hs.revoked f (by simpa using hmem) row hrow (hfamily.trans (Option.some.inj hf))
    rw [hlive] at hrevoked
    cases hrevoked
  | exchanging hread =>
    cases q with
    | codeFind => intro f hf; cases hf
    | refreshFind => intro f hf; cases hf
    | _ => cases hread
  | touched => exact hopen
  | accessIssued => exact hopen
  | revoking hq =>
    intro f hf
    rcases hq with ⟨record, rfl⟩ | ⟨tokenHash, rfl⟩ <;> cases hf
  | _ =>
    intro f hf
    cases hf

/-- A call between its claim or rotation and its insertion meets no new reuse. -/
theorem open_other {p' : Point} (h : Exec env st i c p st' q) (hopen : Open st p')
    (halone : ∀ f, p = .refreshReuse f → p'.issuing ≠ some f) : Open st' p' := by
  intro f hf hmem
  cases h with
  | reused =>
    rename_i familyId e
    rcases List.mem_cons.mp hmem with hmem | hmem
    · cases hmem
      exact halone f rfl hf
    · exact hopen f hf hmem
  | _ => exact hopen f hf (by simpa using hmem)

/-- The invariant of the runs whose family revocations are alone. -/
def ReuseInv : Sys → Prop := Interleave.Inv Closed fun _ st p => Open st p

theorem reuseInv_step {s t : Sys} {l : Label} (hs : SysInv env s) (hr : ReuseInv s) (halone : reuseAlone s l = true)
    (h : step env s l = some t) : ReuseInv t := by
  refine Interleave.inv_step (P := fun s l => SysInv env s ∧ reuseAlone s l = true) ?_ ?_ l hr ⟨hs, halone⟩ h
  · intro i st r _ f hf
    cases r with
    | revoke body =>
      simp only [entry] at hf
      split at hf <;> cases hf
    | _ => cases hf
  · rintro s i p c st q hs ⟨hinv, halone⟩ hp hq
    have he := exec_of_stmt hq
    have hk := hinv.calls i p hp
    refine ⟨closed_exec he hs.store (hs.calls i p hp) hk, open_exec he hs.store hinv.store (hs.calls i p hp) hk, ?_⟩
    intro j p' _ hp'
    refine open_other he (hs.calls j p' hp') ?_
    rintro f rfl
    simp only [reuseAlone, hp, List.all_eq_true, bne_iff_ne] at halone
    exact halone p' (List.mem_of_getElem? hp')

/-- **Rotation and reuse, in every interleaving.** -/
theorem refresh_token_reuse {clients : List Client} {ls : List Label} {s : Sys}
    (h : Runs.run (step env) (init clients) ls = some s) :
    (s.store.log.filterMap Event.rotatedHash).Nodup ∧
    (Runs.Along (step env) (fun s l => reuseAlone s l = true) (init clients) ls →
      ∀ f, .reused f ∈ s.store.log → ∀ row ∈ s.store.refreshTokens, row.familyId = f → row.revokedAt.isSome) := by
  refine ⟨(sysInv_run h).store.refreshTokens.once, fun halong => ?_⟩
  have hinit : SysInv env (init clients) ∧ ReuseInv (init clients) :=
    ⟨sysInv_init clients, ⟨by simp [init], by simp [init]⟩, by simp [init]⟩
  have hinv := Runs.inv_run_along (I := fun s => SysInv env s ∧ ReuseInv s)
    (fun s l t hs hP ht => ⟨sysInv_step s l t hs.1 ht, reuseInv_step hs.1 hs.2 hP ht⟩) hinit halong h
  exact hinv.2.store.revoked

/-! ## Two clients with one token -/

namespace Flow

def refreshBody : Body
  | "grant_type" => .str "refresh_token"
  | "refresh_token" => .str "refresh0"
  | "client_id" => .str "client"
  | _ => .undefined

/-- Both clients exchange the first token of the family, up to the second one's detection of the reuse. -/
def reuseLabels : List Label :=
  labels "https://app/callback" ++
    [.start (.exchange refreshBody), .start (.exchange refreshBody), .exec 3 ⟨3, ""⟩, .exec 3 ⟨3, ""⟩,
      .exec 3 ⟨3, ""⟩, .exec 4 ⟨4, ""⟩, .exec 4 ⟨4, ""⟩]

/-- The first client gets its pair before the family is revoked. -/
def insertFirst : List Label :=
  reuseLabels ++ [.exec 3 ⟨4, "access1"⟩, .exec 3 ⟨4, "refresh1"⟩, .exec 4 ⟨4, ""⟩]

/-- The family is revoked before the first client's pair is inserted. -/
def revokeFirst : List Label :=
  reuseLabels ++ [.exec 4 ⟨4, ""⟩, .exec 3 ⟨4, "access1"⟩, .exec 3 ⟨4, "refresh1"⟩]

def reuseDetected (s : Sys) : Bool :=
  s.store.log.any fun e => match e with | .reused f => f == "family" | _ => false

/-- All calls have ended, and at time 4 the family still has a usable token. -/
def stillUsable (s : Sys) : Bool :=
  s.calls.all Point.isDone &&
    s.store.refreshTokens.any fun row => row.familyId == "family" && row.revokedAt.isNone && decide (4 < row.expiresAt)

end Flow

theorem mem_of_reuseDetected {s : Sys} (h : Flow.reuseDetected s = true) : .reused "family" ∈ s.store.log := by
  obtain ⟨e, he, hreused⟩ := List.any_eq_true.mp h
  cases e with
  | reused f => exact (beq_iff_eq.mp hreused) ▸ he
  | _ => cases hreused

/-- The family is dead where the revocation finds it complete. -/
theorem refresh_token_reuse_example : ∃ s,
    Runs.run (step Flow.digests) (init [Flow.client]) Flow.insertFirst = some s ∧ .reused "family" ∈ s.store.log ∧
      ∀ row ∈ s.store.refreshTokens, row.familyId = "family" → row.revokedAt.isSome := by
  have hrun : (Runs.run (step Flow.digests) (init [Flow.client]) Flow.insertFirst).any Flow.reuseDetected := by
    decide +kernel
  have halong : Runs.Along (step Flow.digests) (fun s l => reuseAlone s l = true) (init [Flow.client])
      Flow.insertFirst := by
    decide +kernel
  obtain ⟨s, hs, hreused⟩ := (Option.any_eq_true _ _).mp hrun
  have hmem := mem_of_reuseDetected hreused
  exact ⟨s, hs, hmem, (refresh_token_reuse hs).2 halong "family" hmem⟩

/-- The revocation falls between a rotation and the insertion of its successor, which stays usable. -/
theorem reuse_between_rotate_and_insert : ∃ s,
    Runs.run (step Flow.digests) (init [Flow.client]) Flow.revokeFirst = some s ∧ .reused "family" ∈ s.store.log ∧
      s.calls.all Point.isDone = true ∧
      ∃ row ∈ s.store.refreshTokens, row.familyId = "family" ∧ row.revokedAt = none ∧ 4 < row.expiresAt := by
  have hrun : (Runs.run (step Flow.digests) (init [Flow.client]) Flow.revokeFirst).any fun s =>
      Flow.reuseDetected s && Flow.stillUsable s := by
    decide +kernel
  obtain ⟨s, hs, hboth⟩ := (Option.any_eq_true _ _).mp hrun
  simp only [Bool.and_eq_true, Flow.stillUsable, List.any_eq_true, beq_iff_eq, Option.isNone_iff_eq_none,
    decide_eq_true_eq] at hboth
  obtain ⟨hreused, hdone, row, hrow, ⟨hfamily, hlive⟩, htime⟩ := hboth
  exact ⟨s, hs, mem_of_reuseDetected hreused, hdone, row, hrow, hfamily, hlive, htime⟩

end AdWiki.Mcp
