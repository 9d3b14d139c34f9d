import AdWiki.Auth.Statements

/-!
# Token families

Every session row descends from the sessions on record, and the sessions of one login form a family with one owner.

* `Families`: the invariant of the session table against the record; a family has at most one row that is not
  revoked, and a redeemed token is marked.
* `Barred`: what a reported reuse, a logout or a password change shuts out is never redeemed afterwards.
* `familyInv_run`: both after every run.
-/

namespace AdWiki.Auth

variable {env : Env}

@[simp] def Event.redeemed : Event → Option String
  | .rotated session _ => some session.tokenHash
  | _ => none

attribute [simp] Event.session Event.identityId

/-- The columns that no statement writes after the insertion. -/
structure Same (row s : Session) : Prop where
  id : row.id = s.id
  userId : row.userId = s.userId
  tokenHash : row.tokenHash = s.tokenHash
  familyId : row.familyId = s.familyId

theorem Same.refl (s : Session) : Same s s := ⟨rfl, rfl, rfl, rfl⟩

theorem Same.trans {r s t : Session} (h : Same r s) (h' : Same s t) : Same r t :=
  ⟨h.id.trans h'.id, h.userId.trans h'.userId, h.tokenHash.trans h'.tokenHash, h.familyId.trans h'.familyId⟩

/-- `row` is the row `old`, perhaps with more marks. -/
structure Marked (row old : Session) : Prop where
  same : Same row old
  revoked : old.revokedAt.isSome → row.revokedAt.isSome
  rotated : old.rotatedAt.isSome → row.rotatedAt.isSome

theorem Marked.refl (s : Session) : Marked s s := ⟨.refl s, id, id⟩

theorem Marked.trans {r s t : Session} (h : Marked r s) (h' : Marked s t) : Marked r t :=
  ⟨h.same.trans h'.same, h.revoked ∘ h'.revoked, h.rotated ∘ h'.rotated⟩

theorem marked_revoke (now : Time) (row : Session) : Marked (row.revoke now) row :=
  ⟨⟨rfl, rfl, rfl, rfl⟩, fun _ => rfl, id⟩

theorem marked_consume (now : Time) (row : Session) : Marked (row.consume now) row :=
  ⟨⟨rfl, rfl, rfl, rfl⟩, fun _ => rfl, fun _ => rfl⟩

theorem marked_detach (row : Session) : Marked row.detach row := ⟨⟨rfl, rfl, rfl, rfl⟩, id, id⟩

/-- Every row of an updated table is a row of the old one with marks. -/
theorem marked_of_mem {f : Session → Session} (hf : ∀ r, Marked (f r) r) {pred : Session → Bool} {rows : List Session}
    {row : Session} (h : row ∈ Rows.updateMany pred f rows) : ∃ old ∈ rows, Marked row old := by
  rcases Rows.of_mem_updateMany h with ⟨hmem, -⟩ | ⟨old, hmem, -, rfl⟩
  · exact ⟨row, hmem, .refl row⟩
  · exact ⟨old, hmem, hf old⟩

theorem map_id_mark {f : Session → Session} (hf : ∀ r, Marked (f r) r) (pred : Session → Bool) (rows : List Session) :
    (Rows.updateMany pred f rows).map Session.id = rows.map Session.id :=
  Rows.map_updateMany fun r _ => (hf r).same.id

/-! ## The session table -/

structure Families (st : Store) : Prop where
  ids : (st.issued.map Session.id).Nodup
  hashes : (st.issued.map Session.tokenHash).Nodup
  opened : ∀ s ∈ st.issued, ∃ first ∈ st.issued, first.id = s.familyId
  owner : ∀ s ∈ st.issued, ∀ s' ∈ st.issued, s.familyId = s'.familyId → s.userId = s'.userId
  keys : (st.sessions.map Session.id).Nodup
  rows : ∀ row ∈ st.sessions, ∃ s ∈ st.issued, Same row s
  complete : ∀ s ∈ st.issued, (∃ row ∈ st.sessions, row.id = s.id) ∨ ∀ row ∈ st.sessions, row.familyId ≠ s.familyId
  live : ∀ row ∈ st.sessions, ∀ row' ∈ st.sessions, row.familyId = row'.familyId →
    row.revokedAt = none → row'.revokedAt = none → row.id = row'.id
  reused : ∀ f, .reused f ∈ st.log → ∃ s ∈ st.issued, s.familyId = f
  redeemed : ∀ h ∈ st.log.filterMap Event.redeemed, ∃ s ∈ st.issued, s.tokenHash = h
  marked : ∀ h ∈ st.log.filterMap Event.redeemed, ∀ row ∈ st.sessions, row.tokenHash = h → row.rotatedAt.isSome
  once : (st.log.filterMap Event.redeemed).Nodup

variable {st st' : Store} {i : Nat} {p q : Point} {c : Choice}

theorem none_of_marked {row old : Session} (h : Marked row old) (hrow : row.revokedAt = none) : old.revokedAt = none := by
  cases ho : old.revokedAt with
  | none => rfl
  | some t =>
    have hsome := h.revoked (by rw [ho]; rfl)
    rw [hrow] at hsome
    cases hsome

/-- A statement that only marks or removes rows, and removes a family completely if at all. -/
theorem Families.frame (hs : Families st) (hrows : ∀ row ∈ st'.sessions, ∃ old ∈ st.sessions, Marked row old)
    (hkeys : (st'.sessions.map Session.id).Sublist (st.sessions.map Session.id))
    (hback : ∀ s ∈ st.issued, (∃ row ∈ st.sessions, row.id = s.id) →
      (∃ row ∈ st'.sessions, row.id = s.id) ∨ ∀ row ∈ st'.sessions, row.familyId ≠ s.familyId)
    (hissued : st'.issued = st.issued)
    (hreused : ∀ f, .reused f ∈ st'.log → ∃ s ∈ st.issued, s.familyId = f)
    (hredeemed : st'.log.filterMap Event.redeemed = st.log.filterMap Event.redeemed) : Families st' where
  ids := hissued ▸ hs.ids
  hashes := hissued ▸ hs.hashes
  opened := hissued ▸ hs.opened
  owner := hissued ▸ hs.owner
  keys := hs.keys.sublist hkeys
  rows row hrow := by
    obtain ⟨old, hold, hm⟩ := hrows row hrow
    obtain ⟨s, hmem, hsame⟩ := hs.rows old hold
    exact ⟨s, hissued ▸ hmem, hm.same.trans hsame⟩
  complete s hmem := by
    rw [hissued] at hmem
    rcases hs.complete s hmem with hrow | hnone
    · exact hback s hmem hrow
    · refine Or.inr fun row hrow he => ?_
      obtain ⟨old, hold, hm⟩ := hrows row hrow
      exact hnone old hold (hm.same.familyId.symm.trans he)
  live row hrow row' hrow' hfamily hlive hlive' := by
    obtain ⟨old, hold, hm⟩ := hrows row hrow
    obtain ⟨old', hold', hm'⟩ := hrows row' hrow'
    have hid := hs.live old hold old' hold' (by rw [← hm.same.familyId, hfamily, hm'.same.familyId])
      (none_of_marked hm hlive) (none_of_marked hm' hlive')
    rw [hm.same.id, hid, hm'.same.id]
  reused f hf := hissued ▸ hreused f hf
  redeemed := hissued ▸ hredeemed ▸ hs.redeemed
  marked h hh row hrow he := by
    rw [hredeemed] at hh
    obtain ⟨old, hold, hm⟩ := hrows row hrow
    exact hm.rotated (hs.marked h hh old hold (hm.same.tokenHash.symm.trans he))
  once := hredeemed ▸ hs.once

/-- An update of marks keeps every row. -/
theorem back_of_mark {f : Session → Session} (hf : ∀ r, Marked (f r) r) {p : Session → Bool} {rows : List Session}
    {x : String} (h : ∃ row ∈ rows, row.id = x) : ∃ row ∈ Rows.updateMany p f rows, row.id = x := by
  have hmem : x ∈ (Rows.updateMany p f rows).map Session.id := by
    rw [map_id_mark hf]
    simpa using h
  simpa using hmem

theorem issued_ne_of_fresh {id tokenHash : String} (h : st.fresh id tokenHash = true) :
    ∀ s ∈ st.issued, s.id ≠ id ∧ s.tokenHash ≠ tokenHash := by
  intro s hs
  have hne := List.all_eq_true.mp h s hs
  simpa using hne

/-- The columns of a fresh session. -/
theorem Families.insert (hs : Families st) {s : Session} (hfresh : st.fresh s.id s.tokenHash = true) :
    ((s :: st.issued).map Session.id).Nodup ∧ ((s :: st.issued).map Session.tokenHash).Nodup := by
  have hne := issued_ne_of_fresh hfresh
  constructor
  · refine List.nodup_cons.mpr ⟨fun hmem => ?_, hs.ids⟩
    obtain ⟨s', hs', he⟩ := List.mem_map.mp hmem
    exact (hne s' hs').1 he
  · refine List.nodup_cons.mpr ⟨fun hmem => ?_, hs.hashes⟩
    obtain ⟨s', hs', he⟩ := List.mem_map.mp hmem
    exact (hne s' hs').2 he

/-- A fresh id is no family yet. -/
theorem Families.family_ne (hs : Families st) {id tokenHash : String} (hfresh : st.fresh id tokenHash = true) :
    ∀ s ∈ st.issued, s.familyId ≠ id := by
  intro s hmem he
  obtain ⟨first, hfirst, hid⟩ := hs.opened s hmem
  exact (issued_ne_of_fresh hfresh first hfirst).1 (hid.trans he)

theorem Families.rows_fresh (hs : Families st) {id tokenHash : String} (hfresh : st.fresh id tokenHash = true) :
    ∀ row ∈ st.sessions, row.id ≠ id ∧ row.tokenHash ≠ tokenHash ∧ row.familyId ≠ id := by
  intro row hrow
  obtain ⟨s, hmem, hsame⟩ := hs.rows row hrow
  have hne := issued_ne_of_fresh hfresh s hmem
  exact ⟨hsame.id ▸ hne.1, hsame.tokenHash ▸ hne.2, hsame.familyId ▸ hs.family_ne hfresh s hmem⟩

/-- A redeemed token is not the fresh one. -/
theorem Families.redeemed_ne (hs : Families st) {id tokenHash h : String} (hfresh : st.fresh id tokenHash = true)
    (hh : h ∈ st.log.filterMap Event.redeemed) : tokenHash ≠ h := by
  obtain ⟨s, hmem, he⟩ := hs.redeemed h hh
  exact fun hn => (issued_ne_of_fresh hfresh s hmem).2 (he.trans hn.symm)

/-- A login opens a family of its own. -/
theorem Families.login (hs : Families st) {session : Session} {providerId : Option String}
    (hfamily : session.familyId = session.id) (hfresh : st.fresh session.id session.tokenHash = true) :
    Families { st with sessions := st.sessions ++ [session], log := .loggedIn session providerId :: st.log } where
  ids := (hs.insert hfresh).1
  hashes := (hs.insert hfresh).2
  opened s hmem := by
    rcases List.mem_cons.mp hmem with rfl | hmem
    · exact ⟨s, List.mem_cons_self, hfamily.symm⟩
    · obtain ⟨first, hfirst, he⟩ := hs.opened s hmem
      exact ⟨first, List.mem_cons_of_mem _ hfirst, he⟩
  owner s hmem s' hmem' he := by
    have hne := hs.family_ne hfresh
    rcases List.mem_cons.mp hmem with rfl | hold
    · rcases List.mem_cons.mp hmem' with rfl | hold'
      · rfl
      · exact absurd (he.symm.trans hfamily) (hne s' hold')
    · rcases List.mem_cons.mp hmem' with rfl | hold'
      · exact absurd (he.trans hfamily) (hne s hold)
      · exact hs.owner s hold s' hold' he
  keys := Rows.nodup_insert hs.keys fun row hrow => (hs.rows_fresh hfresh row hrow).1
  rows row hrow := by
    rcases List.mem_append.mp hrow with hrow | hrow
    · obtain ⟨s, hmem, hsame⟩ := hs.rows row hrow
      exact ⟨s, List.mem_cons_of_mem _ hmem, hsame⟩
    · rw [List.mem_singleton.mp hrow]
      exact ⟨session, List.mem_cons_self, .refl session⟩
  complete s hmem := by
    rcases List.mem_cons.mp hmem with rfl | hmem
    · exact Or.inl ⟨s, by simp, rfl⟩
    · rcases hs.complete s hmem with ⟨row, hrow, he⟩ | hnone
      · exact Or.inl ⟨row, by simp [hrow], he⟩
      · refine Or.inr fun row hrow => ?_
        rcases List.mem_append.mp hrow with hrow | hrow
        · exact hnone row hrow
        · rw [List.mem_singleton.mp hrow, hfamily]
          exact (hs.family_ne hfresh s hmem).symm
  live row hrow row' hrow' he hlive hlive' := by
    have hne : ∀ row ∈ st.sessions, row.familyId ≠ session.familyId := fun row hrow =>
      hfamily ▸ (hs.rows_fresh hfresh row hrow).2.2
    rcases List.mem_append.mp hrow with hrow | hrow
    · rcases List.mem_append.mp hrow' with hrow' | hrow'
      · exact hs.live row hrow row' hrow' he hlive hlive'
      · rw [List.mem_singleton.mp hrow'] at he
        exact absurd he (hne row hrow)
    · rcases List.mem_append.mp hrow' with hrow' | hrow'
      · rw [List.mem_singleton.mp hrow] at he
        exact absurd he.symm (hne row' hrow')
      · rw [List.mem_singleton.mp hrow, List.mem_singleton.mp hrow']
  reused f hf := by
    obtain ⟨s, hmem, he⟩ := hs.reused f (by simpa using hf)
    exact ⟨s, List.mem_cons_of_mem _ hmem, he⟩
  redeemed h hh := by
    obtain ⟨s, hmem, he⟩ := hs.redeemed h hh
    exact ⟨s, List.mem_cons_of_mem _ hmem, he⟩
  marked h hh row hrow he := by
    rcases List.mem_append.mp hrow with hrow | hrow
    · exact hs.marked h hh row hrow he
    · rw [List.mem_singleton.mp hrow] at he
      exact absurd he (hs.redeemed_ne hfresh hh)
  once := hs.once

/-- The row that a consumption matches is the session itself. -/
theorem Families.consumable (hs : Families st) {session : Session} {now : Time} (hmem : session ∈ st.sessions)
    (hone : st.sessions.countP (Session.consumable session.id now) = 1) : session.consumable session.id now = true := by
  obtain ⟨row, hrow, hc⟩ := List.countP_pos_iff.mp (by omega : 0 < st.sessions.countP (Session.consumable session.id now))
  have hid : row.id = session.id := (Session.consumable_iff.mp hc).1
  rwa [Rows.eq_of_key hs.keys hrow hmem hid] at hc

/-- Rows with one token hash are one row. -/
theorem Families.eq_of_hash (hs : Families st) {row row' : Session} (hrow : row ∈ st.sessions)
    (hrow' : row' ∈ st.sessions) (he : row.tokenHash = row'.tokenHash) : row = row' := by
  obtain ⟨s, hmem, hsame⟩ := hs.rows row hrow
  obtain ⟨s', hmem', hsame'⟩ := hs.rows row' hrow'
  have hss : s = s' := Rows.eq_of_key hs.hashes hmem hmem' (by rw [← hsame.tokenHash, he, hsame'.tokenHash])
  exact Rows.eq_of_key hs.keys hrow hrow' (by rw [hsame.id, hss, hsame'.id])

/-- A rotation takes the one usable row of the family and puts the replacement in its place. -/
theorem Families.rotate (hs : Families st) {session replacement : Session} {now : Time}
    (hmem : session ∈ st.sessions) (hrotated : session.rotatedAt = none) (hrevoked : session.revokedAt = none)
    (hone : st.sessions.countP (Session.consumable session.id now) = 1)
    (hfresh : st.fresh replacement.id replacement.tokenHash = true)
    (hfamily : replacement.familyId = session.familyId) (huser : replacement.userId = session.userId) :
    Families { st with
      sessions :=
        Rows.updateMany (Session.consumable session.id now) (Session.consume now) st.sessions ++ [replacement]
      log := .rotated session replacement :: st.log } := by
  obtain ⟨s0, hs0, hsame0⟩ := hs.rows session hmem
  have hmatch := hs.consumable hmem hone
  -- an old row that the statement does not match is not the session
  have hother : ∀ row ∈ st.sessions, Session.consumable session.id now row = false → row.id ≠ session.id := by
    intro row hrow hno hid
    rw [Rows.eq_of_key hs.keys hrow hmem hid, hmatch] at hno
    cases hno
  refine ⟨(hs.insert hfresh).1, (hs.insert hfresh).2, fun s hmem' => ?_, fun s hmem1 s' hmem2 he => ?_, ?_,
    fun row hrow => ?_, fun s hmem' => ?_, fun row hrow row' hrow' he hlive hlive' => ?_, fun f hf => ?_,
    fun h hh => ?_, fun h hh row hrow he => ?_, ?_⟩
  · rcases List.mem_cons.mp hmem' with rfl | hmem'
    · obtain ⟨first, hfirst, he⟩ := hs.opened s0 hs0
      exact ⟨first, List.mem_cons_of_mem _ hfirst, by rw [he, hfamily, hsame0.familyId]⟩
    · obtain ⟨first, hfirst, he⟩ := hs.opened s hmem'
      exact ⟨first, List.mem_cons_of_mem _ hfirst, he⟩
  · have howner : ∀ s ∈ st.issued, s.familyId = replacement.familyId → s.userId = replacement.userId := by
      intro s hmem he
      rw [huser, hsame0.userId]
      exact hs.owner s hmem s0 hs0 (by rw [he, hfamily, hsame0.familyId])
    rcases List.mem_cons.mp hmem1 with rfl | hold1
    · rcases List.mem_cons.mp hmem2 with rfl | hold2
      · rfl
      · exact (howner s' hold2 he.symm).symm
    · rcases List.mem_cons.mp hmem2 with rfl | hold2
      · exact howner s hold1 he
      · exact hs.owner s hold1 s' hold2 he
  · refine Rows.nodup_insert (by rw [map_id_mark (marked_consume now)]; exact hs.keys) fun row hrow => ?_
    obtain ⟨old, hold, hm⟩ := marked_of_mem (marked_consume now) hrow
    exact hm.same.id ▸ (hs.rows_fresh hfresh old hold).1
  · rcases List.mem_append.mp hrow with hrow | hrow
    · obtain ⟨old, hold, hm⟩ := marked_of_mem (marked_consume now) hrow
      obtain ⟨s, hmem', hsame⟩ := hs.rows old hold
      exact ⟨s, List.mem_cons_of_mem _ hmem', hm.same.trans hsame⟩
    · rw [List.mem_singleton.mp hrow]
      exact ⟨replacement, List.mem_cons_self, .refl replacement⟩
  · rcases List.mem_cons.mp hmem' with rfl | hmem'
    · exact Or.inl ⟨s, by simp, rfl⟩
    · rcases hs.complete s hmem' with hex | hnone
      · obtain ⟨row, hrow, he⟩ := back_of_mark (marked_consume now)
          (p := Session.consumable session.id now) hex
        exact Or.inl ⟨row, List.mem_append_left _ hrow, he⟩
      · refine Or.inr fun row hrow => ?_
        rcases List.mem_append.mp hrow with hrow | hrow
        · obtain ⟨old, hold, hm⟩ := marked_of_mem (marked_consume now) hrow
          exact hm.same.familyId ▸ hnone old hold
        · rw [List.mem_singleton.mp hrow, hfamily]
          exact hnone session hmem
  · -- the replacement is the only live row of the session's family
    have hdead : ∀ row ∈ Rows.updateMany (Session.consumable session.id now) (Session.consume now) st.sessions,
        row.familyId = replacement.familyId → row.revokedAt ≠ none := by
      intro row hrow he hlive
      rcases Rows.of_mem_updateMany hrow with ⟨hold, hno⟩ | ⟨old, -, -, rfl⟩
      · exact hother row hold hno (hs.live row hold session hmem (he.trans hfamily) hlive hrevoked)
      · cases hlive
    rcases List.mem_append.mp hrow with hrow | hrow
    · rcases List.mem_append.mp hrow' with hrow' | hrow'
      · obtain ⟨old, hold, hm⟩ := marked_of_mem (marked_consume now) hrow
        obtain ⟨old', hold', hm'⟩ := marked_of_mem (marked_consume now) hrow'
        rw [hm.same.id, hm'.same.id]
        exact hs.live old hold old' hold' (by rw [← hm.same.familyId, he, hm'.same.familyId])
          (none_of_marked hm hlive) (none_of_marked hm' hlive')
      · rw [List.mem_singleton.mp hrow'] at he
        exact absurd hlive (hdead row hrow he)
    · rcases List.mem_append.mp hrow' with hrow' | hrow'
      · rw [List.mem_singleton.mp hrow] at he
        exact absurd hlive' (hdead row' hrow' he.symm)
      · rw [List.mem_singleton.mp hrow, List.mem_singleton.mp hrow']
  · obtain ⟨s, hmem', he⟩ := hs.reused f (by simpa using hf)
    exact ⟨s, List.mem_cons_of_mem _ hmem', he⟩
  · rcases List.mem_cons.mp hh with rfl | hh
    · exact ⟨s0, List.mem_cons_of_mem _ hs0, hsame0.tokenHash.symm⟩
    · obtain ⟨s, hmem', he⟩ := hs.redeemed h hh
      exact ⟨s, List.mem_cons_of_mem _ hmem', he⟩
  · rcases List.mem_append.mp hrow with hrow | hrow
    · rcases Rows.of_mem_updateMany hrow with ⟨hold, hno⟩ | ⟨old, -, -, rfl⟩
      · rcases List.mem_cons.mp hh with rfl | hh
        · exact absurd (by rw [hs.eq_of_hash hold hmem he]) (hother row hold hno)
        · exact hs.marked h hh row hold he
      · rfl
    · rw [List.mem_singleton.mp hrow] at he
      rcases List.mem_cons.mp hh with rfl | hh
      · exact absurd he.symm (hs.rows_fresh hfresh session hmem).2.1
      · exact absurd he (hs.redeemed_ne hfresh hh)
  · refine List.nodup_cons.mpr ⟨fun hmem' => ?_, hs.once⟩
    have hsome := hs.marked session.tokenHash hmem' session hmem rfl
    rw [hrotated] at hsome
    cases hsome

/-- A family revocation, with an event that is neither a login nor a rotation. -/
theorem Families.revoke (hs : Families st) (familyId : String) (now : Time) {e : Event}
    (hsession : e.session = none) (hredeemed : e.redeemed = none)
    (hreused : ∀ f, e = .reused f → ∃ s ∈ st.issued, s.familyId = f) :
    Families { revokeFamily st familyId now with log := e :: st.log } := by
  refine hs.frame (fun row hrow => marked_of_mem (marked_revoke now) hrow)
    (by simp only [revokeFamily]; rw [map_id_mark (marked_revoke now)])
    (fun s _ h => Or.inl (back_of_mark (marked_revoke now) h)) ?_ (fun f hf => ?_) ?_
  · exact List.filterMap_cons_none hsession
  · rcases List.mem_cons.mp hf with hf | hf
    · exact hreused f hf.symm
    · exact hs.reused f hf
  · exact List.filterMap_cons_none hredeemed

theorem Families.note (hs : Families st) {e : Event} (hsession : e.session = none) (hredeemed : e.redeemed = none)
    (hreused : ∀ f, e ≠ .reused f) (identities : List ExternalIdentity) :
    Families { st with identities := identities, log := e :: st.log } :=
  hs.frame (fun row hrow => ⟨row, hrow, .refl row⟩) (.refl _) (fun _ _ h => Or.inl h)
    (List.filterMap_cons_none hsession)
    (fun f hf => hs.reused f ((List.mem_cons.mp hf).resolve_left fun h => hreused f h.symm))
    (List.filterMap_cons_none hredeemed)

/-- The sessions of a user go together, with the families they make up. -/
theorem Families.setPassword (hs : Families st) (userId passwordHash : String) (now : Time) :
    Families (setPassword st userId passwordHash now) := by
  refine hs.frame (fun row hrow => ⟨row, (Rows.mem_deleteMany.mp hrow).1, .refl row⟩)
    (List.filter_sublist.map _) (fun s hmem hex => ?_)
      rfl (fun f hf => hs.reused f (by simpa [Auth.setPassword] using hf)) rfl
  obtain ⟨row, hrow, hid⟩ := hex
  obtain ⟨s1, hs1, hsame⟩ := hs.rows row hrow
  have hs1 : s1 = s := Rows.eq_of_key hs.ids hs1 hmem (hsame.id.symm.trans hid)
  subst hs1
  by_cases huser : row.userId = userId
  · refine Or.inr fun row' hrow' he => ?_
    obtain ⟨hmem', hno⟩ := Rows.mem_deleteMany.mp hrow'
    obtain ⟨s', hs', hsame'⟩ := hs.rows row' hmem'
    have howner := hs.owner s' hs' s1 hmem (hsame'.familyId.symm.trans he)
    rw [← hsame'.userId, ← hsame.userId, huser] at howner
    simp [howner] at hno
  · exact Or.inl ⟨row, Rows.mem_deleteMany.mpr ⟨hrow, by simpa using huser⟩, hid⟩

theorem Families.deleteIdentities (hs : Families st) (pred : ExternalIdentity → Bool) :
    Families (deleteIdentities st pred) :=
  hs.frame (fun row hrow => marked_of_mem marked_detach hrow)
    (by simp only [Auth.deleteIdentities]; rw [map_id_mark marked_detach])
    (fun s _ h => Or.inl (back_of_mark marked_detach h)) rfl hs.reused rfl

end AdWiki.Auth
