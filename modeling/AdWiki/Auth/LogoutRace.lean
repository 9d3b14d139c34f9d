import AdWiki.Auth.ReadCommitted
import AdWiki.Auth.Revocation

/-!
# Logout and password change against a concurrent refresh

The set-based statement of a logout or a password change does not see a replacement that a refresh transaction has
inserted but not committed when the statement starts, or that it inserts while the statement waits.

* `sweepAlone`: the statement starts while no refresh transaction holds a row it matches, and no refresh transaction
  takes such a row before the statement does.
* `sweep_covers`: under this condition a committed logout or password change leaves no usable session behind.
* `refresh_survives_logout`: without it, one does.
-/

namespace AdWiki.Auth.ReadCommitted

open RowLocks

variable {env : Env}

attribute [simp] Event.session

/-- The condition on a schedule. -/
def sweepAlone (s : Sys) : Label → Bool
  | .exec i _ =>
    match s.calls[i]? with
    | some (.sweepStart scope kind _) =>
      kind == .reuse || s.store.locks.all fun lock =>
        lock.mode != .consume || !s.store.sessions.any fun row => scope.matching row && row.id == lock.row
    | some (.refreshConsume session _ _) =>
      s.calls.all fun p =>
        match p with
        | .sweepRun _ kind _ todo _ => kind == .reuse || !todo.contains session.id
        | _ => true
    | _ => true
  | .start _ => true

/-! ## Invariants -/

/-- A row comes from a session on record, and what a committed statement has swept is revoked. -/
structure Swept (st : Store) : Prop where
  ids : (st.issued.map Session.id).Nodup
  rows : ∀ row ∈ st.sessions, ∃ s ∈ st.issued, Same row s
  locks : (st.locks.map Lock.row).Nodup
  swept : ∀ scope, .swept scope ∈ st.log → ∀ row ∈ st.sessions, scope.covers row = true → row.revokedAt.isSome

/-- A refresh transaction has locked the session it consumes, whose committed row is not revoked. -/
structure Holding (st : Store) (i : Nat) (session : Session) : Prop where
  lock : ⟨session.id, i, .consume⟩ ∈ st.locks
  row : ∃ row ∈ st.sessions, Same row session ∧ row.revokedAt = none

/-- A set-based statement has locked the rows in `held`. -/
def Held (st : Store) (i : Nat) (held : List String) : Prop := ∀ id ∈ held, ⟨id, i, .sweep⟩ ∈ st.locks

/-- A logout or a password change has every usable session of its scope in hand or ahead, and no refresh transaction
has one of those ahead. -/
structure Covered (st : Store) (scope : Scope) (todo held : List String) : Prop where
  rows : ∀ row ∈ st.sessions, scope.covers row = true → row.revokedAt = none → row.id ∈ todo ∨ row.id ∈ held
  ahead : ∀ lock ∈ st.locks, lock.mode = .consume → lock.row ∉ todo

/-- What holds of a call at its program point. -/
def At (i : Nat) (st : Store) : Point → Prop
  | .refreshConsume session _ _ => ∃ s ∈ st.issued, Same session s
  | .refreshInsert session _ _ => Holding st i session
  | .refreshCommit session replacement _ _ =>
    Holding st i session ∧ replacement ∈ st.issued ∧ replacement.familyId = session.familyId ∧
      replacement.userId = session.userId
  | .sweepRun scope kind _ todo held => Held st i held ∧ (kind ≠ .reuse → Covered st scope todo held)
  | .sweepCommit scope kind _ held => Held st i held ∧ (kind ≠ .reuse → Covered st scope [] held)
  | _ => True

/-! ## Scopes -/

theorem Scope.covers_of_same {scope : Scope} {row s : Session} (hfamily : row.familyId = s.familyId)
    (huser : row.userId = s.userId) : scope.covers row = scope.covers s := by
  cases scope with
  | family familyId => simp [covers, hfamily]
  | user userId => simp [covers, huser]

/-- The statement matches every usable session of its scope. -/
theorem Scope.matching_of_live {scope : Scope} {row : Session} (h : scope.covers row = true)
    (hlive : row.revokedAt = none) : scope.matching row = true := by
  cases scope with
  | family familyId => exact Session.liveIn_iff.mpr ⟨by simpa [covers] using h, hlive⟩
  | user userId => exact h

/-- A usable row after the write is an old row that was not held. -/
theorem Scope.live_of_mem_write {scope : Scope} {now : Time} {held : List String} {sessions : List Session}
    {row : Session} (h : row ∈ scope.write now held sessions) :
    ∃ old ∈ sessions, Marked row old ∧ (row.revokedAt = none → row = old ∧ old.id ∉ held) := by
  cases scope with
  | family familyId =>
    rcases Rows.of_mem_updateMany h with ⟨hmem, hno⟩ | ⟨old, hmem, -, rfl⟩
    · exact ⟨row, hmem, .refl row, fun _ => ⟨rfl, by simpa using hno⟩⟩
    · exact ⟨old, hmem, marked_revoke now old, fun hlive => nomatch hlive⟩
  | user userId =>
    obtain ⟨hmem, hno⟩ := Rows.mem_deleteMany.mp h
    exact ⟨row, hmem, .refl row, fun _ => ⟨rfl, by simpa using hno⟩⟩

/-- A row that is not held is written by nobody. -/
theorem Scope.mem_write {scope : Scope} {now : Time} {held : List String} {sessions : List Session} {row : Session}
    (h : row ∈ sessions) (hno : row.id ∉ held) : row ∈ scope.write now held sessions := by
  cases scope with
  | family familyId => exact Rows.mem_updateMany.mpr ⟨row, h, by simp [hno]⟩
  | user userId => exact Rows.mem_deleteMany.mpr ⟨h, by simpa using hno⟩

/-! ## What a statement does to the other calls -/

variable {st st' : Store} {i j : Nat} {p p' q : Point} {c : Choice}

/-- A call's knowledge survives when its own locks, the rows they protect and its coverage do. -/
theorem At.frame (h : At j st p) (hissued : ∀ s ∈ st.issued, s ∈ st'.issued)
    (hlocks : ∀ lock ∈ st.locks, lock.owner = j → lock ∈ st'.locks)
    (hholding : ∀ session, Holding st j session → ∃ row ∈ st'.sessions, Same row session ∧ row.revokedAt = none)
    (hcovered : ∀ scope kind now todo held, kind ≠ .reuse →
      p = .sweepRun scope kind now todo held ∨ p = .sweepCommit scope kind now held ∧ todo = [] →
      Held st j held → Covered st scope todo held → Covered st' scope todo held) : At j st' p := by
  have hhold : ∀ session, Holding st j session → Holding st' j session := fun session hs =>
    ⟨hlocks _ hs.lock rfl, hholding session hs⟩
  have hheld : ∀ held, Held st j held → Held st' j held := fun held hh id hid => hlocks _ (hh id hid) rfl
  cases p with
  | refreshConsume session now context =>
    obtain ⟨s, hmem, hsame⟩ := h
    exact ⟨s, hissued s hmem, hsame⟩
  | refreshInsert session now context => exact hhold session h
  | refreshCommit session replacement token now => exact ⟨hhold session h.1, hissued _ h.2.1, h.2.2⟩
  | sweepRun scope kind now todo held =>
    exact ⟨hheld held h.1, fun hk => hcovered scope kind now todo held hk (Or.inl rfl) h.1 (h.2 hk)⟩
  | sweepCommit scope kind now held =>
    exact ⟨hheld held h.1, fun hk => hcovered scope kind now [] held hk (Or.inr ⟨rfl, rfl⟩) h.1 (h.2 hk)⟩
  | _ => trivial

/-- Locks that go are another call's. -/
theorem At.release (h : At j st p) (hij : j ≠ i) : At j { st with locks := RowLocks.release st.locks i } p := by
  refine h.frame (fun _ hs => hs) (fun lock hlock ho => mem_release.mpr ⟨hlock, fun he => hij (ho.symm.trans he)⟩)
    (fun session hs => hs.row) fun scope kind now todo held _ _ _ hc => ⟨hc.rows, fun lock hlock => ?_⟩
  exact hc.ahead lock (mem_release.mp hlock).1

/-- A lock that is taken is not ahead of a logout or a password change, unless that takes it. -/
theorem At.acquire {locks : List Lock} {id : String} {mode : Mode} (h : At j st p)
    (hacquire : RowLocks.acquire st.locks id i mode = some locks)
    (halone : mode = .consume → ∀ scope kind now todo held, kind ≠ .reuse →
      p = .sweepRun scope kind now todo held → id ∉ todo) : At j { st with locks := locks } p := by
  obtain ⟨rfl, -⟩ := acquire_eq_some hacquire
  refine h.frame (fun _ hs => hs) (fun lock hlock _ => List.mem_cons_of_mem _ hlock) (fun session hs => hs.row)
    fun scope kind now todo held hk hp _ hc => ⟨hc.rows, fun lock hlock hmode => ?_⟩
  rcases List.mem_cons.mp hlock with rfl | hlock
  · rcases hp with hp | ⟨-, rfl⟩
    · exact halone hmode scope kind now todo held hk hp
    · exact List.not_mem_nil
  · exact hc.ahead lock hlock hmode

theorem At.create {session : Session} (h : At j st p) : At j { st with log := .created session :: st.log } p :=
  h.frame (fun _ hs => List.mem_cons_of_mem _ hs) (fun _ hlock _ => hlock) (fun _ hs => hs.row)
    fun _ _ _ _ _ _ _ _ hc => ⟨hc.rows, hc.ahead⟩

/-- Two locks on one row are one lock, so their owners are the same. -/
theorem owner_eq (hs : Swept st) {id : String} {m m' : Mode} (h : ⟨id, i, m⟩ ∈ st.locks) (h' : ⟨id, j, m'⟩ ∈ st.locks) :
    i = j :=
  congrArg Lock.owner (exclusive hs.locks h h' rfl)

/-- The session of a refresh transaction is in no other scope's coverage. -/
theorem not_covers_of_holding (hs : Swept st) {scope : Scope} {todo held : List String} {session : Session}
    (hij : j ≠ i) (hheld : Held st j held) (hc : Covered st scope todo held) (hh : Holding st i session) :
    scope.covers session = false := by
  obtain ⟨row, hrow, hsame, hlive⟩ := hh.row
  cases hcov : scope.covers session with
  | false => rfl
  | true =>
    have hcrow : scope.covers row = true := (Scope.covers_of_same hsame.familyId hsame.userId).trans hcov
    rcases hc.rows row hrow hcrow hlive with htodo | hin
    · exact absurd (hsame.id ▸ htodo) (hc.ahead _ hh.lock rfl)
    · exact absurd (owner_eq hs (hsame.id ▸ hheld row.id hin) hh.lock) hij

/-- The rows after a rotation. -/
theorem mem_rotated {session replacement row : Session} {now : Time} {sessions : List Session}
    (h : row ∈ Rows.updateMany (·.id == session.id) (Session.consume now) sessions ++ [replacement]) :
    row = replacement ∨ ∃ old ∈ sessions, Marked row old ∧ (row.revokedAt = none → row = old ∧ old.id ≠ session.id) := by
  rcases List.mem_append.mp h with h | h
  · refine Or.inr ?_
    rcases Rows.of_mem_updateMany h with ⟨hmem, hno⟩ | ⟨old, hmem, -, rfl⟩
    · exact ⟨row, hmem, .refl row, fun _ => ⟨rfl, by simpa using hno⟩⟩
    · exact ⟨old, hmem, marked_consume now old, fun hlive => nomatch hlive⟩
  · exact Or.inl (List.mem_singleton.mp h)

/-- A rotation that commits touches no row that another call holds, and adds no session to a covered scope. -/
theorem At.rotate {session replacement : Session} {now : Time} (h : At j st p) (hs : Swept st) (hij : j ≠ i)
    (hh : Holding st i session) (hfamily : replacement.familyId = session.familyId)
    (huser : replacement.userId = session.userId) :
    At j { st with
      sessions := Rows.updateMany (·.id == session.id) (Session.consume now) st.sessions ++ [replacement]
      locks := RowLocks.release st.locks i } p := by
  refine h.frame (fun _ hs => hs) (fun lock hlock ho => mem_release.mpr ⟨hlock, fun he => hij (ho.symm.trans he)⟩)
    (fun session' hh' => ?_) fun scope kind now' todo held _ _ hheld hc => ⟨fun row hrow hcov hlive => ?_, ?_⟩
  · obtain ⟨row, hrow, hsame, hlive⟩ := hh'.row
    have hne : row.id ≠ session.id := fun he =>
      hij (owner_eq hs (he ▸ hsame.id ▸ hh'.lock) hh.lock)
    exact ⟨row, List.mem_append_left _ (Rows.mem_updateMany.mpr ⟨row, hrow, by simp [hne]⟩), hsame, hlive⟩
  · rcases mem_rotated hrow with rfl | ⟨old, hold, -, heq⟩
    · rw [Scope.covers_of_same hfamily huser, not_covers_of_holding hs hij hheld hc hh] at hcov
      cases hcov
    · obtain ⟨rfl, -⟩ := heq hlive
      exact hc.rows row hold hcov hlive
  · exact fun lock hlock => hc.ahead lock (mem_release.mp hlock).1

/-- A set-based statement that commits touches no row that another call holds. -/
theorem At.write {scope : Scope} {now : Time} {held : List String} {log : List Event} (h : At j st p) (hs : Swept st)
    (hij : j ≠ i) (hheld : Held st i held) (hlog : log.filterMap Event.session = st.log.filterMap Event.session) :
    At j ⟨scope.write now held st.sessions, RowLocks.release st.locks i, log⟩ p := by
  refine h.frame (fun s hmem => by simpa only [Store.issued, hlog] using hmem)
    (fun lock hlock ho => mem_release.mpr ⟨hlock, fun he => hij (ho.symm.trans he)⟩)
    (fun session hh => ?_) fun scope' kind now' todo held' _ _ _ hc => ⟨fun row hrow hcov hlive => ?_, ?_⟩
  · obtain ⟨row, hrow, hsame, hlive⟩ := hh.row
    have hno : row.id ∉ held := fun hin => hij (owner_eq hs (hsame.id ▸ hh.lock) (hheld row.id hin))
    exact ⟨row, Scope.mem_write hrow hno, hsame, hlive⟩
  · obtain ⟨old, hold, -, heq⟩ := Scope.live_of_mem_write hrow
    obtain ⟨rfl, -⟩ := heq hlive
    exact hc.rows row hold hcov hlive
  · exact fun lock hlock => hc.ahead lock (mem_release.mp hlock).1

/-! ## What a statement does to the table -/

theorem Swept.release (hs : Swept st) : Swept { st with locks := RowLocks.release st.locks i } :=
  ⟨hs.ids, hs.rows, nodup_release hs.locks, hs.swept⟩

theorem Swept.acquire (hs : Swept st) {locks : List Lock} {id : String} {mode : Mode}
    (h : RowLocks.acquire st.locks id i mode = some locks) : Swept { st with locks := locks } :=
  ⟨hs.ids, hs.rows, nodup_acquire h hs.locks, hs.swept⟩

theorem Swept.create (hs : Swept st) {session : Session} (hfresh : st.fresh session.id session.tokenHash = true) :
    Swept { st with log := .created session :: st.log } := by
  refine ⟨List.nodup_cons.mpr ⟨fun hmem => ?_, hs.ids⟩, fun row hrow => ?_, hs.locks, fun scope hscope => ?_⟩
  · obtain ⟨s, hmem, he⟩ := List.mem_map.mp hmem
    have hne := List.all_eq_true.mp hfresh s hmem
    simp [he] at hne
  · obtain ⟨s, hmem, hsame⟩ := hs.rows row hrow
    exact ⟨s, List.mem_cons_of_mem _ hmem, hsame⟩
  · exact hs.swept scope (by simpa using hscope)

theorem Swept.rotate (hs : Swept st) {session replacement : Session} {now : Time} (hh : Holding st i session)
    (hissued : replacement ∈ st.issued) (hfamily : replacement.familyId = session.familyId)
    (huser : replacement.userId = session.userId) :
    Swept { st with
      sessions := Rows.updateMany (·.id == session.id) (Session.consume now) st.sessions ++ [replacement]
      locks := RowLocks.release st.locks i } := by
  refine ⟨hs.ids, fun row hrow => ?_, nodup_release hs.locks, fun scope hscope row hrow hcov => ?_⟩
  · rcases mem_rotated hrow with rfl | ⟨old, hold, hm, -⟩
    · exact ⟨row, hissued, .refl row⟩
    · obtain ⟨s, hmem, hsame⟩ := hs.rows old hold
      exact ⟨s, hmem, hm.same.trans hsame⟩
  · rcases mem_rotated hrow with rfl | ⟨old, hold, hm, -⟩
    -- the consumed row is in the scope and not revoked
    · obtain ⟨old, hold, hsame, hlive⟩ := hh.row
      have hcold : scope.covers old = true := by
        rw [Scope.covers_of_same (hsame.familyId.trans hfamily.symm) (hsame.userId.trans huser.symm)]
        exact hcov
      have hsome := hs.swept scope hscope old hold hcold
      rw [hlive] at hsome
      cases hsome
    · exact hm.revoked (hs.swept scope hscope old hold
        ((Scope.covers_of_same hm.same.familyId hm.same.userId).symm.trans hcov))

theorem Kind.session_record (kind : Kind) (scope : Scope) (log : List Event) :
    (kind.record scope log).filterMap Event.session = log.filterMap Event.session := by
  cases kind <;> rfl

theorem Swept.write (hs : Swept st) {scope : Scope} {kind : Kind} {now : Time} {held : List String}
    (hc : kind ≠ .reuse → Covered st scope [] held) :
    Swept ⟨scope.write now held st.sessions, RowLocks.release st.locks i, kind.record scope st.log⟩ := by
  have hissued := kind.session_record scope st.log
  refine ⟨?_, fun row hrow => ?_, nodup_release hs.locks, fun scope' hscope row hrow hcov => ?_⟩
  · simp only [Store.issued, hissued]
    exact hs.ids
  · obtain ⟨old, hold, hm, -⟩ := Scope.live_of_mem_write hrow
    obtain ⟨s, hmem, hsame⟩ := hs.rows old hold
    exact ⟨s, by simpa only [Store.issued, hissued] using hmem, hm.same.trans hsame⟩
  · obtain ⟨old, hold, hm, heq⟩ := Scope.live_of_mem_write hrow
    have hcold : scope'.covers old = true :=
      (Scope.covers_of_same hm.same.familyId hm.same.userId).symm.trans hcov
    have hdone : .swept scope' ∈ st.log ∨ kind ≠ .reuse ∧ scope' = scope := by
      cases kind with
      | reuse => exact Or.inl hscope
      | _ =>
        rcases List.mem_cons.mp hscope with he | hin
        · cases he
          exact Or.inr ⟨nofun, rfl⟩
        · exact Or.inl hin
    rcases hdone with hin | ⟨hkind, rfl⟩
    · exact hm.revoked (hs.swept scope' hin old hold hcold)
    -- a usable row of the scope would have been held
    · rw [Option.isSome_iff_ne_none]
      intro hlive
      obtain ⟨rfl, hno⟩ := heq hlive
      rcases (hc hkind).rows row hold hcold hlive with htodo | hin
      · exact absurd htodo List.not_mem_nil
      · exact hno hin

/-! ## One statement -/

/-- What a statement establishes: the table stays in order, its own call is at its next point, and the other calls
keep what they know. -/
structure Kept (st' : Store) (i : Nat) (q : Point) (st : Store) (calls : List Point) : Prop where
  swept : Swept st'
  self : At i st' q
  others : ∀ j p, j ≠ i → calls[j]? = some p → At j st p → At j st' p

variable {calls : List Point}

theorem Kept.same (hs : Swept st) (hq : At i st q) : Kept st i q st calls := ⟨hs, hq, fun _ _ _ _ h => h⟩

theorem kept_of_rollback (hs : Swept st) (h : rollback st i = some (st', q)) : Kept st' i q st calls := by
  cases h
  exact ⟨hs.release, trivial, fun j p hij _ hp => hp.release hij⟩

theorem kept_of_refused (hs : Swept st) {e : HttpError} (h : refused st e = some (st', q)) : Kept st' i q st calls := by
  cases h
  exact .same hs trivial

/-- A refresh transaction takes its row: nobody has it ahead. -/
theorem kept_consume (hs : Swept st) {session : Session} {now : Time} {context : RequestContext} {locks : List Lock}
    (hk : ∃ s ∈ st.issued, Same session s) (hrow : st.sessions.any (Session.consumable session.id now) = true)
    (hacquire : RowLocks.acquire st.locks session.id i .consume = some locks)
    (halone : ∀ (j : Nat) (scope : Scope) (kind : Kind) (now : Time) (todo held : List String),
      calls[j]? = some (.sweepRun scope kind now todo held) → kind ≠ .reuse → session.id ∉ todo) :
    Kept { st with locks := locks } i (.refreshInsert session now context) st calls := by
  refine ⟨hs.acquire hacquire, ?_, fun j p _ hj hp => hp.acquire hacquire ?_⟩
  · obtain ⟨s, hmem, hsame⟩ := hk
    obtain ⟨row, hrow, hc⟩ := List.any_eq_true.mp hrow
    obtain ⟨hid, -, hlive, -⟩ := Session.consumable_iff.mp hc
    obtain ⟨s', hmem', hsame'⟩ := hs.rows row hrow
    -- the row and the session that was read have one id, hence one record
    have hss : s' = s := Rows.eq_of_key hs.ids hmem' hmem (by rw [← hsame'.id, hid, hsame.id])
    have hsame'' : Same row session :=
      ⟨hid, by rw [hsame'.userId, hss, hsame.userId], by rw [hsame'.tokenHash, hss, hsame.tokenHash],
        by rw [hsame'.familyId, hss, hsame.familyId]⟩
    obtain ⟨rfl, -⟩ := acquire_eq_some hacquire
    exact ⟨List.mem_cons_self, row, hrow, hsame'', hlive⟩
  · rintro - scope kind now' todo held hkind rfl
    exact halone j scope kind now' todo held hj hkind

/-- A visit of a free row that still matches. -/
theorem kept_visit (hs : Swept st) {scope : Scope} {kind : Kind} {now : Time} {todo held : List String} {id : String}
    {locks : List Lock} (hk : At i st (.sweepRun scope kind now todo held))
    (hacquire : RowLocks.acquire st.locks id i .sweep = some locks) :
    Kept { st with locks := locks } i (.sweepRun scope kind now (todo.filter (· ≠ id)) (id :: held)) st calls := by
  refine ⟨hs.acquire hacquire, ?_, fun j p _ _ hp => hp.acquire hacquire nofun⟩
  obtain ⟨hheld, hcov⟩ := hk
  obtain ⟨rfl, -⟩ := acquire_eq_some hacquire
  refine ⟨fun id' hid => ?_, fun hkind => ⟨fun row hrow hc hlive => ?_, fun lock hlock hmode htodo => ?_⟩⟩
  · rcases List.mem_cons.mp hid with rfl | hid
    · exact List.mem_cons_self
    · exact List.mem_cons_of_mem _ (hheld id' hid)
  · rcases (hcov hkind).rows row hrow hc hlive with htodo | hin
    · by_cases he : row.id = id
      · exact Or.inr (he ▸ List.mem_cons_self)
      · exact Or.inl (List.mem_filter.mpr ⟨htodo, by simpa using he⟩)
    · exact Or.inr (List.mem_cons_of_mem _ hin)
  · rcases List.mem_cons.mp hlock with rfl | hlock
    · cases hmode
    · exact (hcov hkind).ahead lock hlock hmode (List.mem_filter.mp htodo).1

/-- A visit of a row that does not match any more. -/
theorem kept_skip (hs : Swept st) {scope : Scope} {kind : Kind} {now : Time} {todo held : List String} {id : String}
    (hk : At i st (.sweepRun scope kind now todo held))
    (hno : ¬st.sessions.any (fun row => row.id == id && scope.matching row) = true) :
    Kept st i (.sweepRun scope kind now (todo.filter (· ≠ id)) held) st calls := by
  refine .same hs ⟨hk.1, fun hkind => ⟨fun row hrow hc hlive => ?_, fun lock hlock hmode htodo => ?_⟩⟩
  · rcases (hk.2 hkind).rows row hrow hc hlive with htodo | hin
    · refine Or.inl (List.mem_filter.mpr ⟨htodo, ?_⟩)
      have hne : row.id ≠ id := fun he =>
        hno (List.any_eq_true.mpr ⟨row, hrow, by simp [he, Scope.matching_of_live hc hlive]⟩)
      simpa using hne
    · exact Or.inr hin
  · exact (hk.2 hkind).ahead lock hlock hmode (List.mem_filter.mp htodo).1

/-- The snapshot has every usable session of the scope. -/
theorem covered_snapshot {scope : Scope}
    (halone : ∀ lock ∈ st.locks, lock.mode = .consume → ∀ row ∈ st.sessions, scope.matching row = true →
      row.id ≠ lock.row) :
    Covered st scope ((st.sessions.filter scope.matching).map Session.id) [] := by
  refine ⟨fun row hrow hc hlive => Or.inl ?_, fun lock hlock hmode htodo => ?_⟩
  · exact List.mem_map.mpr ⟨row, List.mem_filter.mpr ⟨hrow, Scope.matching_of_live hc hlive⟩, rfl⟩
  · obtain ⟨row, hrow, hid⟩ := List.mem_map.mp htodo
    obtain ⟨hmem, hmatch⟩ := List.mem_filter.mp hrow
    exact halone lock hlock hmode row hmem hmatch hid

section Branches

attribute [local simp] stmt

theorem kept_refreshVerify {s : Sys} {token : String} {context : RequestContext} (hs : Swept s.store)
    (h : stmt env s.store i (.refreshVerify token context) c = some (st', q)) : Kept st' i q s.store s.calls := by
  simp only [stmt] at h
  split at h
  · exact kept_of_refused hs h
  · split at h
    · exact kept_of_refused hs h
    · cases h
      exact .same hs trivial

theorem kept_refreshRead {s : Sys} {payload : JwtPayload} {tokenHash : String} {now : Time} {context : RequestContext}
    (hs : Swept s.store)
    (h : stmt env s.store i (.refreshRead payload tokenHash now context) c = some (st', q)) :
    Kept st' i q s.store s.calls := by
  simp only [stmt] at h
  split at h
  · exact kept_of_refused hs h
  · next session hfind =>
    split at h
    · exact kept_of_refused hs h
    · split at h
      · cases h
        exact .same hs trivial
      · split at h
        · exact kept_of_refused hs h
        · cases h
          exact .same hs (hs.rows session (List.mem_of_find?_eq_some hfind))

theorem kept_refreshConsume {s : Sys} {session : Session} {now : Time} {context : RequestContext} (hs : Swept s.store)
    (hk : At i s.store (.refreshConsume session now context))
    (hp : s.calls[i]? = some (.refreshConsume session now context)) (halone : sweepAlone s (.exec i c) = true)
    (h : stmt env s.store i (.refreshConsume session now context) c = some (st', q)) : Kept st' i q s.store s.calls := by
  simp only [sweepAlone, hp] at halone
  simp only [stmt] at h
  split at h
  · exact kept_of_rollback hs h
  · split at h
    · next hrow =>
      obtain ⟨locks, hacquire, he⟩ := Option.map_eq_some_iff.mp h
      cases he
      refine kept_consume hs hk hrow hacquire fun j scope kind now' todo held hj hkind => ?_
      have hall := List.all_eq_true.mp halone _ (List.mem_of_getElem? hj)
      simpa [hkind] using hall
    · cases h
      exact .same hs trivial

theorem kept_refreshLost {s : Sys} {session : Session} {now : Time} (hs : Swept s.store)
    (h : stmt env s.store i (.refreshLost session now) c = some (st', q)) : Kept st' i q s.store s.calls := by
  simp only [stmt] at h
  split at h
  · cases h
    exact .same hs trivial
  · exact kept_of_refused hs h

theorem kept_refreshInsert {s : Sys} {session : Session} {now : Time} {context : RequestContext} (hs : Swept s.store)
    (hk : At i s.store (.refreshInsert session now context))
    (h : stmt env s.store i (.refreshInsert session now context) c = some (st', q)) : Kept st' i q s.store s.calls := by
  simp only [stmt] at h
  split at h
  · exact kept_of_rollback hs h
  · split at h
    · next hfresh =>
      cases h
      refine ⟨hs.create hfresh, ?_, fun j p _ _ hp => hp.create⟩
      exact ⟨⟨hk.lock, hk.row⟩, List.mem_cons_self, rfl, rfl⟩
    · cases h

theorem kept_refreshCommit {s : Sys} {session replacement : Session} {token : String} {now : Time} (hs : Swept s.store)
    (hk : At i s.store (.refreshCommit session replacement token now))
    (h : stmt env s.store i (.refreshCommit session replacement token now) c = some (st', q)) :
    Kept st' i q s.store s.calls := by
  simp only [stmt] at h
  split at h
  · exact kept_of_rollback hs h
  · cases h
    obtain ⟨hh, hissued, hfamily, huser⟩ := hk
    exact ⟨hs.rotate hh hissued hfamily huser, trivial, fun j p hij _ hp => hp.rotate hs hij hh hfamily huser⟩

theorem kept_passwordCheck {s : Sys} {userId : String} (hs : Swept s.store)
    (h : stmt env s.store i (.passwordCheck userId) c = some (st', q)) : Kept st' i q s.store s.calls := by
  simp only [stmt] at h
  split at h
  · cases h
    exact .same hs trivial
  · exact kept_of_refused hs h

theorem kept_sweepStart {s : Sys} {scope : Scope} {kind : Kind} {now : Time} (hs : Swept s.store)
    (hp : s.calls[i]? = some (.sweepStart scope kind now)) (halone : sweepAlone s (.exec i c) = true)
    (h : stmt env s.store i (.sweepStart scope kind now) c = some (st', q)) : Kept st' i q s.store s.calls := by
  simp only [sweepAlone, hp] at halone
  cases h
  refine .same hs ⟨fun id hid => absurd hid List.not_mem_nil, fun hkind => covered_snapshot ?_⟩
  intro lock hlock hmode row hrow hmatch hid
  simp only [Bool.or_eq_true, beq_iff_eq, hkind, false_or, List.all_eq_true] at halone
  have hlock' := halone lock hlock
  simp only [hmode, bne_self_eq_false, Bool.false_eq_true, false_or, Bool.not_eq_true', List.any_eq_false,
    Bool.and_eq_true, beq_iff_eq, not_and] at hlock'
  exact hlock' row hrow hmatch hid

theorem kept_sweepRun {s : Sys} {scope : Scope} {kind : Kind} {now : Time} {todo held : List String} (hs : Swept s.store)
    (hk : At i s.store (.sweepRun scope kind now todo held))
    (h : stmt env s.store i (.sweepRun scope kind now todo held) c = some (st', q)) : Kept st' i q s.store s.calls := by
  simp only [stmt] at h
  split at h
  · exact kept_of_rollback hs h
  · cases todo with
    | nil =>
      cases h
      exact .same hs hk
    | cons id todo =>
      simp only at h
      split at h
      · cases h
      · split at h
        · cases h
        · split at h
          · obtain ⟨locks, hacquire, he⟩ := Option.map_eq_some_iff.mp h
            cases he
            exact kept_visit hs hk hacquire
          · next hno =>
            cases h
            exact kept_skip hs hk hno

theorem kept_sweepCommit {s : Sys} {scope : Scope} {kind : Kind} {now : Time} {held : List String} (hs : Swept s.store)
    (hk : At i s.store (.sweepCommit scope kind now held))
    (h : stmt env s.store i (.sweepCommit scope kind now held) c = some (st', q)) : Kept st' i q s.store s.calls := by
  simp only [stmt] at h
  split at h
  · exact kept_of_rollback hs h
  · cases h
    exact ⟨hs.write hk.2, trivial, fun j p hij _ hp => hp.write hs hij hk.1 (kind.session_record scope _)⟩

end Branches

theorem kept_stmt {s : Sys} (hs : Swept s.store) (hk : At i s.store p) (hp : s.calls[i]? = some p)
    (halone : sweepAlone s (.exec i c) = true) (h : stmt env s.store i p c = some (st', q)) :
    Kept st' i q s.store s.calls := by
  cases p with
  | refreshVerify token context => exact kept_refreshVerify hs h
  | refreshRead payload tokenHash now context => exact kept_refreshRead hs h
  | refreshConsume session now context => exact kept_refreshConsume hs hk hp halone h
  | refreshLost session now => exact kept_refreshLost hs h
  | refreshInsert session now context => exact kept_refreshInsert hs hk h
  | refreshCommit session replacement token now => exact kept_refreshCommit hs hk h
  | logoutFind tokenHash =>
    simp only [stmt] at h
    split at h <;> cases h <;> exact .same hs trivial
  | passwordCheck userId => exact kept_passwordCheck hs h
  | sweepStart scope kind now => exact kept_sweepStart hs hp halone h
  | sweepRun scope kind now todo held => exact kept_sweepRun hs hk h
  | sweepCommit scope kind now held => exact kept_sweepCommit hs hk h
  | done result => cases h

/-! ## Every run -/

def SweptInv : Sys → Prop := Interleave.Inv Swept fun i st p => At i st p

theorem sweptInv_init (table : Table) : SweptInv (init table) where
  store := by
    have hissued : (init table).store.issued = table.sessions := by
      simp [init, Store.issued, List.filterMap_map, Function.comp_def]
    exact ⟨hissued ▸ table.ids, fun row hrow => ⟨row, hissued ▸ hrow, .refl row⟩, List.nodup_nil,
      fun scope hscope => by simp [init] at hscope⟩
  calls i p hp := by simp [init] at hp

theorem sweptInv_step (s : Sys) (l : Label) (t : Sys) (hs : SweptInv s) (halone : sweepAlone s l = true)
    (h : step env s l = some t) : SweptInv t := by
  refine Interleave.inv_step (P := fun s l => sweepAlone s l = true) ?_ ?_ l hs halone h
  · intro i st r _
    cases r <;> trivial
  · intro s i p c st q hs halone hp hq
    have hkept := kept_stmt hs.store (hs.calls i p hp) hp halone hq
    exact ⟨hkept.swept, hkept.self, fun j p' hij hp' => hkept.others j p' hij hp' (hs.calls j p' hp')⟩

/-- **A committed logout or password change leaves no usable session**, in the runs whose set-based statements are
alone: not when it commits, and not in any later state. -/
theorem sweep_covers {table : Table} {ls : List Label} {s : Sys}
    (hrun : Runs.run (step env) (init table) ls = some s)
    (halone : Runs.Along (step env) (fun s l => sweepAlone s l = true) (init table) ls) {scope : Scope}
    (hswept : .swept scope ∈ s.store.log) :
    ∀ row ∈ s.store.sessions, scope.covers row = true → row.revokedAt.isSome :=
  (Runs.inv_run_along sweptInv_step (sweptInv_init table) halone hrun).store.swept scope hswept

/-! ## One session -/

namespace Demo

/-- One usable session, with `token0`. -/
def table : Table where
  sessions := [⟨"session0", "user", "refresh:token0", "session0", none, none, 100, none, none, none, none, none⟩]
  ids := List.nodup_singleton _

def visit (row : String) : Choice := ⟨5, "", "", row, true, true, false⟩

def fresh : Choice := ⟨5, "session1", "token1", "", true, true, false⟩

/-- A refresh, up to its commit. -/
def refresh : List Label :=
  [.start (.refreshToken "token0" Auth.Demo.context), .exec 0 (visit ""), .exec 0 (visit ""), .exec 0 (visit ""),
    .exec 0 fresh]

/-- The refresh commits before the logout starts. -/
def inTurn : List Label :=
  refresh ++ [.exec 0 (visit ""), .start (.logout "token0"), .exec 1 (visit ""), .exec 1 (visit ""),
    .exec 1 (visit "session1"), .exec 1 (visit ""), .exec 1 (visit "")]

/-- The logout's statement starts before the refresh commits, and waits for the consumed row. -/
def race : List Label :=
  refresh ++ [.start (.logout "token0"), .exec 1 (visit ""), .exec 1 (visit ""), .exec 0 (visit ""),
    .exec 1 (visit "session0"), .exec 1 (visit ""), .exec 1 (visit "")]

def isDone : Point → Bool
  | .done _ => true
  | _ => false

end Demo

theorem sweep_covers_in_turn : ∃ s,
    Runs.run (step Auth.Demo.plainEnv) (init Demo.table) Demo.inTurn = some s ∧
      .swept (.family "session0") ∈ s.store.log ∧ 2 ≤ s.store.sessions.length ∧
      ∀ row ∈ s.store.sessions, row.familyId = "session0" → row.revokedAt.isSome := by
  have hrun : (Runs.run (step Auth.Demo.plainEnv) (init Demo.table) Demo.inTurn).any fun s =>
      decide (.swept (.family "session0") ∈ s.store.log) && decide (2 ≤ s.store.sessions.length) := by
    decide +kernel
  have halone : Runs.Along (step Auth.Demo.plainEnv) (fun s l => sweepAlone s l = true) (init Demo.table)
      Demo.inTurn := by
    decide +kernel
  obtain ⟨s, hs, hboth⟩ := (Option.any_eq_true _ _).mp hrun
  simp only [Bool.and_eq_true, decide_eq_true_eq] at hboth
  exact ⟨s, hs, hboth.1, hboth.2, fun row hrow he => sweep_covers hs halone hboth.1 row hrow (by simp [Scope.covers, he])⟩

/-- The logout has committed, both calls have ended, and the session that the refresh created is usable. -/
theorem refresh_survives_logout : ∃ s,
    Runs.run (step Auth.Demo.plainEnv) (init Demo.table) Demo.race = some s ∧
      .swept (.family "session0") ∈ s.store.log ∧ s.calls.all Demo.isDone = true ∧
      ∃ row ∈ s.store.sessions, row.familyId = "session0" ∧ row.revokedAt = none ∧ 5 < row.expiresAt := by
  have hrun : (Runs.run (step Auth.Demo.plainEnv) (init Demo.table) Demo.race).any fun s =>
      decide (.swept (.family "session0") ∈ s.store.log) && s.calls.all Demo.isDone &&
        s.store.sessions.any fun row =>
          row.familyId == "session0" && row.revokedAt.isNone && decide (5 < row.expiresAt) := by
    decide +kernel
  obtain ⟨s, hs, hall⟩ := (Option.any_eq_true _ _).mp hrun
  simp only [Bool.and_eq_true, decide_eq_true_eq, List.any_eq_true, beq_iff_eq, Option.isNone_iff_eq_none] at hall
  obtain ⟨⟨hswept, hdone⟩, row, hrow, ⟨hfamily, hlive⟩, htime⟩ := hall
  exact ⟨s, hs, hswept, hdone, row, hrow, hfamily, hlive, htime⟩

end AdWiki.Auth.ReadCommitted
