import AdWiki.Auth.Families

/-!
# What is revoked stays revoked

A reported reuse and a logout shut a family out, a password change the tokens its user had. `Bars old e s` says that
the event `e`, which happened when `old` was on record, shuts the session `s` out.

* `Barred`: a session that an event shuts out is not redeemed after the event, and its row is revoked or gone.
* `refresh_token_families`: the result for every run.
-/

namespace AdWiki.Auth

variable {env : Env} {st st' : Store} {i : Nat} {p q : Point} {c : Choice}

/-! ## Every statement keeps the families -/

/-- What a call in progress relies on: the family of a token that a logout found. -/
def KnownFamily (log : List Event) : Point → Prop
  | .logoutRevoke tokenHash familyId =>
    ∃ s ∈ log.filterMap Event.session, s.tokenHash = tokenHash ∧ s.familyId = familyId
  | _ => True

theorem knownFamily_mono {log log' : List Event} (hlog : log <:+ log') (h : KnownFamily log p) :
    KnownFamily log' p := by
  cases p with
  | logoutRevoke tokenHash familyId =>
    obtain ⟨s, hmem, he⟩ := h
    exact ⟨s, (hlog.sublist.filterMap Event.session).mem hmem, he⟩
  | _ => trivial

theorem families_exec (h : Exec env st c p st' q) (hs : Families st) : Families st' := by
  have hframe : ∀ {st1 : Store}, st1.sessions = st.sessions → st1.log = st.log → Families st1 := by
    intro st1 hsessions hlog
    exact hs.frame (fun row hrow => ⟨row, hsessions ▸ hrow, .refl row⟩) (by rw [hsessions])
      (fun _ _ h => Or.inl (hsessions ▸ h)) (by rw [Store.issued, hlog, Store.issued])
      (fun f hf => hs.reused f (hlog ▸ hf)) (by rw [hlog])
  have hreused : ∀ {session : Session}, session ∈ st.sessions → ∃ s ∈ st.issued, s.familyId = session.familyId := by
    intro session hmem
    obtain ⟨s, hs', hsame⟩ := hs.rows session hmem
    exact ⟨s, hs', hsame.familyId.symm⟩
  cases h with
  | loggedIn hnew hfresh hidentity =>
    subst hnew
    exact hs.login rfl hfresh
  | rotated hmem hhash hrefused hrotated hrevoked hone hfresh hnew =>
    subst hnew
    exact hs.rotate hmem hrotated hrevoked hone hfresh rfl rfl
  | reused hmem =>
    exact hs.revoke _ _ rfl rfl fun f hf => by
      cases hf
      exact hreused hmem
  | loggedOut => exact hs.revoke _ _ rfl rfl fun f hf => by cases hf
  | logoutUnknown hnone => exact hs.note rfl rfl (fun f hf => by cases hf) st.identities
  | linked hfresh => exact hs.note rfl rfl (fun f hf => by cases hf) _
  | passwordSet hp => exact hs.setPassword _ _ _
  | unlinked hmem =>
    refine Families.deleteIdentities ?_ _
    exact hs.frame (fun row hrow => marked_of_mem (marked_revoke c.now) hrow) (by rw [map_id_mark (marked_revoke c.now)])
      (fun s _ h => Or.inl (back_of_mark (marked_revoke c.now) h)) rfl hs.reused rfl
  | providerRemoved =>
    rename_i provider a
    have hd := hs.deleteIdentities (·.providerId == provider.id)
    exact ⟨hd.ids, hd.hashes, hd.opened, hd.owner, hd.keys, hd.rows, hd.complete, hd.live, hd.reused, hd.redeemed,
      hd.marked, hd.once⟩
  | _ => exact hframe rfl rfl

theorem knownFamily_exec (h : Exec env st c p st' q) (hs : Families st) : KnownFamily st'.log q := by
  cases h with
  | logoutFound hmem hhash =>
    obtain ⟨s, hs', hsame⟩ := hs.rows _ hmem
    exact ⟨s, hs', by rw [← hsame.tokenHash, hhash], hsame.familyId.symm⟩
  | moved hq => cases q <;> trivial
  | _ => trivial

/-! ## Events that shut sessions out -/

/-- The sessions that `e` shuts out when `old` is on record. -/
def Bars (old : List Event) (e : Event) (s : Session) : Prop :=
  match e with
  | .reused familyId => s.familyId = familyId
  | .loggedOut tokenHash =>
    ∃ s' ∈ old.filterMap Event.session, s'.tokenHash = tokenHash ∧ s.familyId = s'.familyId
  | .passwordChanged userId =>
    ∃ s' ∈ old.filterMap Event.session, s'.userId = userId ∧ s.tokenHash = s'.tokenHash
  | _ => False

/-- Being shut out is a matter of the token and its family. -/
theorem Bars.of_same {old : List Event} {e : Event} {row s : Session} (hsame : Same row s) (h : Bars old e row) :
    Bars old e s := by
  cases e with
  | reused familyId => exact hsame.familyId.symm.trans h
  | loggedOut tokenHash =>
    obtain ⟨s', hmem, hhash, he⟩ := h
    exact ⟨s', hmem, hhash, hsame.familyId.symm.trans he⟩
  | passwordChanged userId =>
    obtain ⟨s', hmem, huser, he⟩ := h
    exact ⟨s', hmem, huser, hsame.tokenHash.symm.trans he⟩
  | _ => cases h

def Barred (st : Store) : Prop :=
  ∀ new e old, st.log = new ++ e :: old →
    (∀ session replacement, .rotated session replacement ∈ new → ¬Bars old e session) ∧
      ∀ row ∈ st.sessions, Bars old e row → row.revokedAt.isSome

/-- A fresh token of a family that no event on record shuts out, is not shut out. -/
theorem not_bars_of_fresh (hs : Families st) {new old : List Event} {e : Event} (hlog : st.log = new ++ e :: old)
    {s : Session} {id : String} (hfresh : st.fresh id s.tokenHash = true)
    (hfamily : ∀ s' ∈ st.issued, s'.familyId = s.familyId → ∃ row ∈ st.sessions, row.familyId = s.familyId ∧
      ¬Bars old e row) : ¬Bars old e s := by
  have hold : ∀ s' ∈ old.filterMap Event.session, s' ∈ st.issued := by
    intro s' hmem
    rw [Store.issued, hlog, List.filterMap_append]
    refine List.mem_append_right _ ?_
    exact ((List.sublist_cons_self e old).filterMap Event.session).mem hmem
  intro hb
  cases e with
  | reused familyId =>
    obtain ⟨s', hmem, he⟩ := hs.reused familyId (by simp [hlog])
    obtain ⟨row, -, hrow, hno⟩ := hfamily s' hmem (he.trans (Eq.symm hb))
    exact hno (hrow.trans hb)
  | loggedOut tokenHash =>
    obtain ⟨s', hmem, hhash, he⟩ := hb
    obtain ⟨row, -, hrow, hno⟩ := hfamily s' (hold s' hmem) he.symm
    exact hno ⟨s', hmem, hhash, hrow.trans he⟩
  | passwordChanged userId =>
    obtain ⟨s', hmem, -, he⟩ := hb
    exact (issued_ne_of_fresh hfresh s' (hold s' hmem)).2 he.symm
  | _ => cases hb

/-- One more event. -/
theorem Barred.cons {e' : Event} (hs : Barred st) (hlog : st'.log = e' :: st.log)
    (hredeem : ∀ session replacement, e' = .rotated session replacement →
      session ∈ st.sessions ∧ session.revokedAt = none)
    (hrows : ∀ row ∈ st'.sessions, (∃ old ∈ st.sessions, Marked row old) ∨
      ∀ new e old, st.log = new ++ e :: old → ¬Bars old e row)
    (hself : ∀ row ∈ st'.sessions, Bars st.log e' row → row.revokedAt.isSome) : Barred st' := by
  intro new e old hsplit
  rw [hlog] at hsplit
  cases new with
  | nil =>
    cases hsplit
    exact ⟨fun _ _ hmem => (List.not_mem_nil hmem).elim, hself⟩
  | cons e'' new =>
    obtain ⟨hhead, htail⟩ : e' = e'' ∧ st.log = new ++ e :: old := by simpa using hsplit
    obtain ⟨hnone, hrevoked⟩ := hs new e old htail
    constructor
    · intro session replacement hmem hb
      rcases List.mem_cons.mp hmem with he | hmem
      · obtain ⟨hin, hlive⟩ := hredeem session replacement (hhead.trans he.symm)
        have hsome := hrevoked session hin hb
        rw [hlive] at hsome
        cases hsome
      · exact hnone session replacement hmem hb
    · intro row hrow hb
      rcases hrows row hrow with ⟨old', hold, hm⟩ | hno
      · exact hm.revoked (hrevoked old' hold (hb.of_same hm.same))
      · exact absurd hb (hno new e old htail)

theorem Barred.same (hs : Barred st) (hlog : st'.log = st.log)
    (hrows : ∀ row ∈ st'.sessions, ∃ old ∈ st.sessions, Marked row old) : Barred st' := by
  intro new e old hsplit
  obtain ⟨hnone, hrevoked⟩ := hs new e old (hlog ▸ hsplit)
  refine ⟨hnone, fun row hrow hb => ?_⟩
  obtain ⟨old', hold, hm⟩ := hrows row hrow
  exact hm.revoked (hrevoked old' hold (hb.of_same hm.same))

/-- A family revocation shuts the family's rows out. -/
theorem revokedAt_of_revokeFamily {familyId : String} {now : Time} {row : Session}
    (hrow : row ∈ (revokeFamily st familyId now).sessions) (hfamily : row.familyId = familyId) :
    row.revokedAt.isSome := by
  rcases Rows.of_mem_updateMany hrow with ⟨-, hno⟩ | ⟨old, -, -, rfl⟩
  · simpa [Session.liveIn, hfamily, Option.isSome_iff_ne_none] using hno
  · rfl

theorem barred_exec (h : Exec env st c p st' q) (hf : Families st) (hs : Barred st) (hk : KnownFamily st.log p) :
    Barred st' := by
  have hmark : ∀ {rows : List Session}, (∀ row ∈ rows, row ∈ st.sessions) →
      ∀ row ∈ rows, (∃ old ∈ st.sessions, Marked row old) ∨
        ∀ new e old, st.log = new ++ e :: old → ¬Bars old e row :=
    fun hsub row hrow => Or.inl ⟨row, hsub row hrow, .refl row⟩
  cases h with
  | loggedIn hnew hfresh hidentity =>
    rename_i userId context external session a
    subst hnew
    refine hs.cons rfl (fun _ _ he => nomatch he) (fun row hrow => ?_) fun row _ hb => hb.elim
    rcases List.mem_append.mp hrow with hrow | hrow
    · exact Or.inl ⟨row, hrow, .refl row⟩
    · refine Or.inr fun new e old hlog => ?_
      rw [List.mem_singleton.mp hrow]
      exact not_bars_of_fresh hf hlog hfresh fun s' hs' he => absurd he (hf.family_ne hfresh s' hs')
  | rotated hmem hhash hrefused hrotated hrevoked hone hfresh hnew =>
    rename_i payload tokenHash now context session replacement a
    subst hnew
    refine hs.cons rfl (fun s r he => ?_) (fun row hrow => ?_) fun row _ hb => hb.elim
    · cases he
      exact ⟨hmem, hrevoked⟩
    · rcases List.mem_append.mp hrow with hrow | hrow
      · exact Or.inl (marked_of_mem (marked_consume now) hrow)
      -- the consumed row is live, so no event on record shuts its family out
      · refine Or.inr fun new e old hlog => ?_
        rw [List.mem_singleton.mp hrow]
        refine not_bars_of_fresh hf hlog hfresh fun s' _ _ => ⟨session, hmem, rfl, fun hb => ?_⟩
        have hsome := (hs new e old hlog).2 session hmem hb
        rw [hrevoked] at hsome
        cases hsome
  | reused hmem =>
    rename_i payload tokenHash now context session e
    refine hs.cons rfl (fun _ _ he => nomatch he) (fun row hrow => Or.inl (marked_of_mem (marked_revoke now) hrow)) ?_
    intro row hrow hb
    exact revokedAt_of_revokeFamily hrow hb
  | loggedOut =>
    rename_i tokenHash familyId a
    refine hs.cons rfl (fun _ _ he => nomatch he) (fun row hrow => Or.inl (marked_of_mem (marked_revoke c.now) hrow)) ?_
    rintro row hrow ⟨s', hs', hhash, hfamily⟩
    obtain ⟨s, hmem, hhash', hfamily'⟩ := hk
    have hss : s' = s := Rows.eq_of_key hf.hashes hs' hmem (hhash.trans hhash'.symm)
    exact revokedAt_of_revokeFamily hrow (by rw [hfamily, hss, hfamily'])
  | logoutUnknown hnone =>
    rename_i tokenHash a
    refine hs.cons rfl (fun _ _ he => nomatch he) (hmark fun _ hrow => hrow) ?_
    rintro row hrow ⟨s, hmem, hhash, hfamily⟩
    -- the row of the token is gone, so its family is gone
    rcases hf.complete s hmem with ⟨row', hrow', hid⟩ | hgone
    · obtain ⟨s1, hs1, hsame⟩ := hf.rows row' hrow'
      have hss : s1 = s := Rows.eq_of_key hf.ids hs1 hmem (hsame.id.symm.trans hid)
      exact absurd (by rw [hsame.tokenHash, hss, hhash]) (hnone row' hrow')
    · exact absurd hfamily (hgone row hrow)
  | passwordSet hp =>
    rename_i userId passwordHash now a
    refine hs.cons rfl (fun _ _ he => nomatch he) (hmark fun _ hrow => (Rows.mem_deleteMany.mp hrow).1) ?_
    rintro row hrow ⟨s, hmem, huser, hhash⟩
    obtain ⟨hin, hno⟩ := Rows.mem_deleteMany.mp hrow
    obtain ⟨s1, hs1, hsame⟩ := hf.rows row hin
    have hss : s1 = s := Rows.eq_of_key hf.hashes hs1 hmem (hsame.tokenHash.symm.trans hhash)
    have hrowUser : row.userId = userId := by rw [hsame.userId, hss, huser]
    simp [hrowUser] at hno
  | linked hfresh => exact hs.cons rfl (fun _ _ he => nomatch he) (hmark fun _ hrow => hrow) fun row _ hb => hb.elim
  | unlinked hmem =>
    refine hs.same rfl fun row hrow => ?_
    obtain ⟨mid, hmid, hm⟩ := marked_of_mem marked_detach hrow
    obtain ⟨old, hold, hm'⟩ := marked_of_mem (marked_revoke c.now) hmid
    exact ⟨old, hold, hm.trans hm'⟩
  | providerRemoved => exact hs.same rfl fun row hrow => marked_of_mem marked_detach hrow
  | _ => exact hs.same rfl fun row hrow => ⟨row, hrow, .refl row⟩

/-! ## Every run -/

structure FamilyStore (st : Store) : Prop where
  families : Families st
  barred : Barred st

def FamilyInv : Sys → Prop := Interleave.Inv FamilyStore fun _ st p => KnownFamily st.log p

theorem filterMap_linked {β : Type} {f : Event → Option β} (hf : ∀ identity, f (.linked identity) = none)
    (identities : List ExternalIdentity) : (identities.map Event.linked).filterMap f = [] := by
  simp [hf]

theorem familyInv_init (setup : Setup) : FamilyInv (init setup) where
  store := by
    have hissued : (init setup).store.issued = [] := filterMap_linked (fun _ => rfl) setup.identities
    have hredeemed : (init setup).store.log.filterMap Event.redeemed = [] :=
      filterMap_linked (fun _ => rfl) setup.identities
    constructor
    · exact ⟨by simp [hissued], by simp [hissued], by simp [hissued], by simp [hissued], by simp [init],
        by simp [init], by simp [hissued], by simp [init], by simp [init], by simp [hredeemed], by simp [hredeemed],
        by simp [hredeemed]⟩
    · intro new e old hlog
      refine ⟨fun session replacement hmem => ?_, fun row hrow => by cases hrow⟩
      have hin : Event.rotated session replacement ∈ (init setup).store.log := by
        rw [hlog]
        exact List.mem_append_left _ hmem
      simp [init] at hin
  calls i p hp := by simp [init] at hp

theorem familyInv_step (s : Sys) (l : Label) (t : Sys) (hs : FamilyInv s) (h : step env s l = some t) :
    FamilyInv t := by
  refine Interleave.inv_step (P := fun _ _ => True) ?_ ?_ l hs trivial h
  · intro i st r _
    cases r <;> trivial
  · intro s i p c st q hs _ hp hq
    have he := exec_of_stmt hq
    exact ⟨⟨families_exec he hs.store.families, barred_exec he hs.store.families hs.store.barred (hs.calls i p hp)⟩,
      knownFamily_exec he hs.store.families, fun j p' _ hp' => knownFamily_mono (log_suffix he) (hs.calls j p' hp')⟩

theorem familyInv_run {setup : Setup} {ls : List Label} {s : Sys}
    (h : Runs.run (step env) (init setup) ls = some s) : FamilyInv s :=
  Runs.inv_run familyInv_step (familyInv_init setup) h

/-- **Refresh-token families, in every interleaving of transactions.** Each token is redeemed at most once, a family
has at most one session that is not revoked, and what a reported reuse, a logout or a password change shuts out is
not redeemed afterwards. -/
theorem refresh_token_families {setup : Setup} {ls : List Label} {s : Sys}
    (h : Runs.run (step env) (init setup) ls = some s) :
    (s.store.log.filterMap Event.redeemed).Nodup ∧
    (∀ familyId, s.store.sessions.countP (Session.liveIn familyId) ≤ 1) ∧
    ∀ new e old, s.store.log = new ++ e :: old →
      ∀ session replacement, .rotated session replacement ∈ new → ¬Bars old e session := by
  have hs := (familyInv_run h).store
  refine ⟨hs.families.once, fun familyId => ?_, fun new e old hlog => (hs.barred new e old hlog).1⟩
  refine Rows.countP_le_one hs.families.keys fun row hrow row' hrow' hp hp' => ?_
  obtain ⟨hfamily, hlive⟩ := Session.liveIn_iff.mp hp
  obtain ⟨hfamily', hlive'⟩ := Session.liveIn_iff.mp hp'
  exact hs.families.live row hrow row' hrow' (hfamily.trans hfamily'.symm) hlive hlive'

/-! ## One family -/

namespace Demo

/-- Signatures, digests and password checks that keep their argument; every refresh token is the user's. -/
def plainEnv : Env where
  verify _ token := if token.startsWith "token" then some ⟨"user", some .refresh, none⟩ else none
  hashRefreshToken s := "refresh:" ++ s
  hashResetToken s := "reset:" ++ s
  hashLoginCode s := "code:" ++ s
  hashUserAgent s := s.getD ""
  compare password hash := password == hash
  bcrypt s := s
  refreshExpiryDate _ now := now + 604800000
  resetTtlMinutes := 30
  identitySync := false

def user : User := ⟨"user", "user@wiki", "secret", true, false, true⟩

def context : RequestContext := ⟨none, none⟩

def setup : Setup := ⟨[user], "true", [], [], List.nodup_nil⟩

/-- A login, a refresh, a replay of the first token, and a refresh with the second one. -/
def replay : List Label :=
  [.start (.login "user@wiki" "secret" context), .exec 0 ⟨0, "", "", true⟩, .exec 0 ⟨0, "session0", "token0", true⟩,
    .start (.refreshToken "token0" context), .exec 1 ⟨1, "", "", true⟩, .exec 1 ⟨1, "session1", "token1", true⟩,
    .start (.refreshToken "token0" context), .exec 2 ⟨2, "", "", true⟩, .exec 2 ⟨2, "", "", true⟩,
    .start (.refreshToken "token1" context), .exec 3 ⟨3, "", "", true⟩, .exec 3 ⟨3, "", "", true⟩]

end Demo

theorem refresh_token_families_replay : ∃ s,
    Runs.run (step Demo.plainEnv) (init Demo.setup) Demo.replay = some s ∧ .reused "session0" ∈ s.store.log ∧
      (s.store.log.filterMap Event.redeemed).Nodup ∧
      ∀ familyId, s.store.sessions.countP (Session.liveIn familyId) ≤ 1 := by
  have hrun : (Runs.run (step Demo.plainEnv) (init Demo.setup) Demo.replay).any fun s =>
      decide (.reused "session0" ∈ s.store.log) := by
    decide +kernel
  obtain ⟨s, hs, hreused⟩ := (Option.any_eq_true _ _).mp hrun
  obtain ⟨honce, hlive, -⟩ := refresh_token_families hs
  exact ⟨s, hs, of_decide_eq_true hreused, honce, hlive⟩

end AdWiki.Auth
