import AdWiki.ApiClient.Http

/-!
# One refresh at a time

Requests that are refused share one refresh (`tryRefresh`), and its token leaves the store with its answer.
`auth.refresh` neither joins that refresh nor can be joined, and leaves its token in the store when it fails.

* `stmt_move`: the five things that a step does to tokens and refreshes.
* `Flights`: a token that was sent and is in the store still belongs to a call.
* `single_flight_iff`: the runs in which no token is sent twice; in these the server never revokes the family.
* `same_token_twice`: two refreshes side by side.
-/

namespace AdWiki.ApiClient

variable {st st' : Client} {i j : Nat} {p q : Point} {c : Choice} {s t : Sys} {token : Token}

/-! ## The steps -/

/-- What a step does. -/
inductive Move (st : Client) (i : Nat) (c : Choice) (p : Point) : Client → Point → Prop
  /-- The store, and what the calls have sent, stay as they are; at most a login has made a new token. -/
  | idle {st' : Client} {q : Point} (hspends : spends st c p = none) (htokens : st'.tokens = st.tokens)
    (hsent : st'.sent = st.sent) (hpromise : st'.refreshPromise = st.refreshPromise) (htoken : q.token = p.token)
    (hunderway : q.underway = none) (hrefreshes : q.refreshes = p.refreshes) (hspent : st'.server.spent = st.server.spent)
    (hrevoked : st'.server.revoked = st.server.revoked) (hnext : st.server.next ≤ st'.server.next)
    (hanswer : ∀ token, q.answer = some token → token = st.server.next ∧ token < st'.server.next) : Move st i c p st' q
  /-- The server handles a refresh. -/
  | exchange {q : Point} {token : Token} (hspends : spends st c p = none) (hp : p.underway = some token)
    (htoken : q.token = p.token) (hunderway : q.underway = none) (hrefreshes : q.refreshes = p.refreshes)
    (hanswer : q.answer = (st.server.refresh token).2) : Move st i c p { st with server := (st.server.refresh token).1 } q
  /-- A refresh begins; with a token in the store, it is sent. -/
  | begin {q : Point} (hspends : spends st c p = st.tokens.refreshToken) (hnone : st.refreshPromise = none)
    (hp : p.token = none) (hq : q.refreshes = true) (hanswer : q.answer = none)
    (htoken : q.token = st.tokens.refreshToken)
    (hunderway : q.underway = st.tokens.refreshToken) :
    Move st i c p { st with refreshPromise := some i, sent := st.tokens.refreshToken.toList ++ st.sent } q
  /-- `auth.refresh` sends the token of the store. -/
  | send {token : Token} (hstored : st.tokens.refreshToken = some token) (hp : p = .manualRead) :
    Move st i c p { st with sent := token :: st.sent } (.manualSent token)
  /-- The store is written: with the new pair of an answer, or cleared. -/
  | store {st' : Client} {q : Point} (hspends : spends st c p = none) (hsent : st'.sent = st.sent)
    (hpromise : st'.refreshPromise = st.refreshPromise) (hserver : st'.server = st.server)
    (hwritten : st'.tokens.refreshToken = none ∨ st'.tokens.refreshToken = p.answer) (htoken : q.token = none)
    (hunderway : q.underway = none) (hanswer : q.answer = none) (hrefreshes : q.refreshes = p.refreshes) :
    Move st i c p st' q
  /-- The refresh of the call is over. -/
  | settle {st' : Client} {q : Point} (hspends : spends st c p = none) (hp : p.refreshes = true) (hpt : p.token = none)
    (hq : q.refreshes = false) (htoken : q.token = none) (hunderway : q.underway = none) (hanswer : q.answer = none)
    (htokens : st'.tokens = st.tokens) (hsent : st'.sent = st.sent) (hserver : st'.server = st.server)
    (hpromise : st'.refreshPromise = none) : Move st i c p st' q

/-- Nothing changes but the point. -/
theorem Move.still (hspends : spends st c p = none) (htoken : q.token = p.token) (hunderway : q.underway = none)
    (hrefreshes : q.refreshes = p.refreshes) (hanswer : q.answer = none) : Move st i c p st q :=
  .idle hspends rfl rfl rfl htoken hunderway hrefreshes rfl rfl (Nat.le_refl _) fun _ h => by
    rw [hanswer] at h
    cases h

/-- A refresh at the server touches the server alone. -/
theorem exchange_move (hspends : spends st c p = none) (hp : p.underway = some token)
    (hq : q.answer = (exchange st token c).2)
    (hunderway : q.underway = none) (htoken : q.token = p.token) (hrefreshes : q.refreshes = p.refreshes) :
    Move st i c p (exchange st token c).1 q := by
  unfold exchange at hq ⊢
  split
  · next hreached =>
    rw [if_pos hreached] at hq
    exact .exchange hspends hp htoken hunderway hrefreshes hq
  · next hlost =>
    rw [if_neg hlost] at hq
    exact .still hspends htoken hunderway hrefreshes hq

/-! The statements with a branch, one by one. -/

section Branches

attribute [local simp] stmt

theorem move_of_sent {kind : RequestKind} {retried : Bool}
    (h : stmt st i (.sent kind retried) c = some (st', q)) : Move st i c (.sent kind retried) st' q := by
  simp only [stmt] at h
  split at h
  · cases h
    exact .idle rfl rfl rfl rfl rfl rfl rfl rfl rfl (Nat.le_refl _) fun _ h => nomatch h
  · cases h
    exact .still rfl rfl rfl rfl rfl

/-- A call whose request is refused joins the refresh that runs, or begins one. -/
theorem move_of_tryRefresh {kind : RequestKind} (harrives : c.arrives = true)
    (h : tryRefresh st i kind = (st', q)) :
    Move st i c (.answered kind false .unauthorized) st' q := by
  unfold tryRefresh at h
  split at h
  · next promise hjoined =>
    cases h
    exact .still (by simp [spends, hjoined]) rfl rfl rfl rfl
  · next hnone =>
    have hspends : spends st c (.answered kind false .unauthorized) = st.tokens.refreshToken := by
      simp_all [spends]
    split at h
    · next hstored =>
      cases h
      have hmove := Move.begin (i := i) (q := .settling kind false) hspends hnone rfl rfl rfl hstored.symm hstored.symm
      rwa [hstored] at hmove
    · next token hstored =>
      cases h
      have hmove := Move.begin (i := i) (q := .refreshSent kind token) hspends hnone rfl rfl rfl hstored.symm
        hstored.symm
      rwa [hstored] at hmove

theorem move_of_answered {kind : RequestKind} {retried : Bool} {status : Status}
    (h : stmt st i (.answered kind retried status) c = some (st', q)) :
    Move st i c (.answered kind retried status) st' q := by
  simp only [stmt] at h
  split at h
  · next hlost =>
    cases h
    exact .still (by simp_all [spends]) rfl rfl rfl rfl
  · next harrives =>
    split at h
    · cases h
      cases kind with
      | changePassword => exact .store (by simp [spends]) rfl rfl rfl (Or.inl rfl) rfl rfl rfl rfl
      | request => exact .still (by simp [spends]) rfl rfl rfl rfl
      | download => exact .still (by simp [spends]) rfl rfl rfl rfl
    · exact move_of_tryRefresh (by simpa using harrives) (Option.some.inj h)
    · next hnot _ =>
      cases h
      exact .still (by simp_all [spends]) rfl rfl rfl rfl

theorem move_of_refreshSent {kind : RequestKind} {token : Token}
    (h : stmt st i (.refreshSent kind token) c = some (st', q)) : Move st i c (.refreshSent kind token) st' q := by
  simp only [stmt, Option.some.injEq, Prod.mk.injEq] at h
  obtain ⟨rfl, rfl⟩ := h
  exact exchange_move rfl rfl rfl rfl rfl rfl

theorem move_of_refreshAnswered {kind : RequestKind} {token : Token} {answer : Option Token}
    (h : stmt st i (.refreshAnswered kind token answer) c = some (st', q)) :
    Move st i c (.refreshAnswered kind token answer) st' q := by
  simp only [stmt] at h
  split at h
  · cases h
    exact .store rfl rfl rfl rfl (Or.inr rfl) rfl rfl rfl rfl
  · cases h
    exact .store rfl rfl rfl rfl (Or.inl rfl) rfl rfl rfl rfl

theorem move_of_awaiting {kind : RequestKind} {promise : Nat}
    (h : stmt st i (.awaiting kind promise) c = some (st', q)) : Move st i c (.awaiting kind promise) st' q := by
  simp only [stmt] at h
  split at h
  · cases h
  · cases h
    exact .still rfl rfl rfl rfl rfl
  · cases h
    exact .still rfl rfl rfl rfl rfl

theorem move_of_manualRead (h : stmt st i .manualRead c = some (st', q)) : Move st i c .manualRead st' q := by
  simp only [stmt] at h
  split at h
  · next hnone =>
    cases h
    exact .still hnone rfl rfl rfl rfl
  · next token hstored =>
    cases h
    exact .send hstored rfl

theorem move_of_manualSent {token : Token}
    (h : stmt st i (.manualSent token) c = some (st', q)) : Move st i c (.manualSent token) st' q := by
  simp only [stmt, Option.some.injEq, Prod.mk.injEq] at h
  obtain ⟨rfl, rfl⟩ := h
  exact exchange_move rfl rfl rfl rfl rfl rfl

theorem move_of_manualAnswered {token : Token} {answer : Option Token}
    (h : stmt st i (.manualAnswered token answer) c = some (st', q)) :
    Move st i c (.manualAnswered token answer) st' q := by
  simp only [stmt] at h
  split at h
  · cases h
    exact .store rfl rfl rfl rfl (Or.inr rfl) rfl rfl rfl rfl
  · cases h
    exact .still rfl rfl rfl rfl rfl

theorem move_of_logoutRead (h : stmt st i .logoutRead c = some (st', q)) : Move st i c .logoutRead st' q := by
  simp only [stmt] at h
  split at h
  · cases h
    exact .store rfl rfl rfl rfl (Or.inl rfl) rfl rfl rfl rfl
  · cases h
    exact .still rfl rfl rfl rfl rfl

theorem move_of_logoutSent {token : Token}
    (h : stmt st i (.logoutSent token) c = some (st', q)) : Move st i c (.logoutSent token) st' q := by
  simp only [stmt] at h
  split at h
  · cases h
    exact .idle rfl rfl rfl rfl rfl rfl rfl rfl rfl (Nat.le_refl _) fun _ h => nomatch h
  · cases h
    exact .still rfl rfl rfl rfl rfl

theorem move_of_loginSent (h : stmt st i .loginSent c = some (st', q)) : Move st i c .loginSent st' q := by
  simp only [stmt] at h
  split at h
  · cases h
    exact .idle rfl rfl rfl rfl rfl rfl rfl rfl rfl (Nat.le_succ _) fun token htoken => by
      cases htoken
      exact ⟨rfl, Nat.lt_succ_self _⟩
  · cases h
    exact .still rfl rfl rfl rfl rfl

theorem move_of_loginAnswered {answer : Option Token}
    (h : stmt st i (.loginAnswered answer) c = some (st', q)) : Move st i c (.loginAnswered answer) st' q := by
  simp only [stmt] at h
  split at h
  · cases h
    exact .store rfl rfl rfl rfl (Or.inr rfl) rfl rfl rfl rfl
  · cases h
    exact .still rfl rfl rfl rfl rfl

end Branches

theorem stmt_move (h : stmt st i p c = some (st', q)) : Move st i c p st' q := by
  cases p with
  | fetch kind retried =>
    cases h
    exact .still rfl rfl rfl rfl rfl
  | sent kind retried => exact move_of_sent h
  | answered kind retried status => exact move_of_answered h
  | refreshSent kind token => exact move_of_refreshSent h
  | refreshAnswered kind token answer => exact move_of_refreshAnswered h
  | settling kind result =>
    cases h
    exact .settle rfl rfl rfl rfl rfl rfl rfl rfl rfl rfl rfl
  | awaiting kind promise => exact move_of_awaiting h
  | manualRead => exact move_of_manualRead h
  | manualSent token => exact move_of_manualSent h
  | manualAnswered token answer => exact move_of_manualAnswered h
  | logoutRead => exact move_of_logoutRead h
  | logoutSent token => exact move_of_logoutSent h
  | logoutAnswered =>
    cases h
    exact .store rfl rfl rfl rfl (Or.inl rfl) rfl rfl rfl rfl
  | loginRead =>
    cases h
    exact .idle rfl rfl rfl rfl rfl rfl rfl rfl rfl (Nat.le_refl _) fun _ h => nomatch h
  | loginSent => exact move_of_loginSent h
  | loginAnswered answer => exact move_of_loginAnswered h
  | manualFailed token => cases h
  | done => cases h

/-- A step sends what `spends` says. -/
theorem stmt_sent (h : stmt st i p c = some (st', q)) : st'.sent = (spends st c p).toList ++ st.sent := by
  cases stmt_move h with
  | idle hspends _ hsent => rw [hspends, hsent]; rfl
  | exchange hspends => rw [hspends]; rfl
  | begin hspends => rw [hspends]
  | send hstored hp => rw [hp, show spends st c .manualRead = _ from hstored]; rfl
  | store hspends hsent => rw [hspends, hsent]; rfl
  | settle hspends _ _ _ _ _ _ _ hsent => rw [hspends, hsent]; rfl

/-! ## Tokens and the calls that have sent them -/

/-- A token that was sent and is still in the store belongs to a call (`held`); the one running refresh is the one that
the others join (`owner`); a new token on its way was never sent and is in no other place (`answer`, `distinct`). -/
structure Flights (s : Sys) : Prop where
  owner : ∀ (i : Nat) (p : Point), s.calls[i]? = some p → p.refreshes = true → s.store.refreshPromise = some i
  sent : ∀ (i : Nat) (p : Point) (token : Token), s.calls[i]? = some p → p.token = some token → token ∈ s.store.sent
  held : ∀ token ∈ s.store.sent, s.store.tokens.refreshToken = some token →
    ∃ (i : Nat) (p : Point), s.calls[i]? = some p ∧ p.token = some token
  stored : ∀ token, s.store.tokens.refreshToken = some token → token < s.store.server.next
  old : ∀ token ∈ s.store.sent, token < s.store.server.next
  answer : ∀ (i : Nat) (p : Point) (token : Token), s.calls[i]? = some p → p.answer = some token →
    token < s.store.server.next ∧ token ∉ s.store.sent ∧ s.store.tokens.refreshToken ≠ some token
  distinct : ∀ (i j : Nat) (p q : Point) (token : Token), s.calls[i]? = some p → s.calls[j]? = some q →
    p.answer = some token →
    q.answer = some token → i = j

theorem refresh_next (server : Server) (token : Token) : server.next ≤ (server.refresh token).1.next ∧
    ∀ answer, (server.refresh token).2 = some answer → answer = server.next ∧ answer < (server.refresh token).1.next := by
  unfold Server.refresh
  split
  · refine ⟨Nat.le_succ _, fun answer hanswer => ?_⟩
    cases hanswer
    exact ⟨rfl, Nat.lt_succ_self _⟩
  · split
    · exact ⟨Nat.le_refl _, fun _ h => nomatch h⟩
    · exact ⟨Nat.le_refl _, fun _ h => nomatch h⟩

theorem Flights.start {call : Call} (h : Flights s) : Flights ⟨s.store, s.calls ++ [entry call]⟩ := by
  have hentry : (entry call).refreshes = false ∧ (entry call).token = none ∧ (entry call).answer = none := by
    cases call <;> exact ⟨rfl, rfl, rfl⟩
  obtain ⟨hrefreshes, htoken, hanswer⟩ := hentry
  refine ⟨fun i p hp hr => ?_, fun i p token hp ht => ?_, fun token hsent hstored => ?_, h.stored, h.old,
    fun i p token hp ha => ?_, fun i j p q token hp hq ha hb => ?_⟩
  · rcases Interleave.getElem?_append_cases hp with ⟨-, rfl⟩ | hp
    · rw [hrefreshes] at hr
      cases hr
    · exact h.owner i p hp hr
  · rcases Interleave.getElem?_append_cases hp with ⟨-, rfl⟩ | hp
    · rw [htoken] at ht
      cases ht
    · exact h.sent i p token hp ht
  · obtain ⟨i, p, hp, ht⟩ := h.held token hsent hstored
    exact ⟨i, p, by rw [List.getElem?_append_left (List.getElem?_eq_some_iff.mp hp).1, hp], ht⟩
  · rcases Interleave.getElem?_append_cases hp with ⟨-, rfl⟩ | hp
    · rw [hanswer] at ha
      cases ha
    · exact h.answer i p token hp ha
  · rcases Interleave.getElem?_append_cases hp with ⟨-, rfl⟩ | hp
    · rw [hanswer] at ha
      cases ha
    · rcases Interleave.getElem?_append_cases hq with ⟨-, rfl⟩ | hq
      · rw [hanswer] at hb
        cases hb
      · exact h.distinct i j p q token hp hq ha hb

section Exec

variable (h : Flights s) (hp : s.calls[i]? = some p)
include h hp

/-- The store and the tokens of the call stay; a new token of the server may be on its way. -/
theorem Flights.keep (htokens : st'.tokens = s.store.tokens) (hsent : st'.sent = s.store.sent)
    (hpromise : st'.refreshPromise = s.store.refreshPromise) (htoken : q.token = p.token)
    (hrefreshes : q.refreshes = p.refreshes)
    (hnext : s.store.server.next ≤ st'.server.next)
    (hanswer : ∀ token, q.answer = some token → token = s.store.server.next ∧ token < st'.server.next) :
    Flights ⟨st', s.calls.set i q⟩ := by
  refine ⟨fun j p' hp' hr => ?_, fun j p' token hp' ht => ?_, fun token ht hstored => ?_, fun token ht => ?_,
    fun token ht => ?_,
    fun j p' token hp' ha => ?_, fun j k p' q' token hp' hq' ha hb => ?_⟩
  · rw [hpromise]
    rcases Interleave.getElem?_set_cases hp hp' with ⟨rfl, rfl⟩ | ⟨-, hp'⟩
    · exact h.owner j p hp (hrefreshes ▸ hr)
    · exact h.owner j p' hp' hr
  · rw [hsent]
    rcases Interleave.getElem?_set_cases hp hp' with ⟨rfl, rfl⟩ | ⟨-, hp'⟩
    · exact h.sent j p token hp (htoken ▸ ht)
    · exact h.sent j p' token hp' ht
  · rw [hsent] at ht
    rw [htokens] at hstored
    obtain ⟨j, p', hp', ht'⟩ := h.held token ht hstored
    by_cases hj : i = j
    · subst hj
      obtain rfl : p = p' := Option.some.inj (hp.symm.trans hp')
      exact ⟨i, q, List.getElem?_set_self (List.getElem?_eq_some_iff.mp hp).1, htoken.trans ht'⟩
    · exact ⟨j, p', (Interleave.getElem?_set_ne hj).mpr hp', ht'⟩
  · rw [htokens] at ht
    exact Nat.lt_of_lt_of_le (h.stored token ht) hnext
  · rw [hsent] at ht
    exact Nat.lt_of_lt_of_le (h.old token ht) hnext
  · rw [hsent, htokens]
    rcases Interleave.getElem?_set_cases hp hp' with ⟨rfl, rfl⟩ | ⟨-, hp'⟩
    · obtain ⟨rfl, hlt⟩ := hanswer token ha
      exact ⟨hlt, fun hold => Nat.lt_irrefl _ (h.old _ hold), fun hstored => Nat.lt_irrefl _ (h.stored _ hstored)⟩
    · obtain ⟨hlt, hrest⟩ := h.answer j p' token hp' ha
      exact ⟨Nat.lt_of_lt_of_le hlt hnext, hrest⟩
  · rcases Interleave.getElem?_set_cases hp hp' with ⟨rfl, rfl⟩ | ⟨-, hother⟩
    · rcases Interleave.getElem?_set_cases hp hq' with ⟨rfl, rfl⟩ | ⟨-, hother'⟩
      · rfl
      · obtain ⟨rfl, -⟩ := hanswer token ha
        exact absurd (h.answer k q' _ hother' hb).1 (Nat.lt_irrefl _)
    · rcases Interleave.getElem?_set_cases hp hq' with ⟨rfl, rfl⟩ | ⟨-, hother'⟩
      · obtain ⟨rfl, -⟩ := hanswer token hb
        exact absurd (h.answer j p' _ hother ha).1 (Nat.lt_irrefl _)
      · exact h.distinct j k p' q' token hother hother' ha hb

/-- The call sends the token of the store, if there is one. -/
theorem Flights.send {promise : Option Nat}
    (hpromise : q.refreshes = true ∧ s.store.refreshPromise = none ∧ promise = some i ∨
      q.refreshes = false ∧ promise = s.store.refreshPromise)
    (hanswer : q.answer = none) (htoken : q.token = s.store.tokens.refreshToken) :
    Flights ⟨{ s.store with refreshPromise := promise, sent := s.store.tokens.refreshToken.toList ++ s.store.sent },
      s.calls.set i q⟩ := by
  refine ⟨fun j p'' hp'' hr => ?_, fun j p'' token hp'' ht => ?_, fun token ht hstored => ?_, h.stored,
    fun token ht => ?_,
    fun j p'' token hp'' ha => ?_, fun j k p'' q'' token hp'' hq'' ha hb => ?_⟩
  · show promise = some j
    rcases Interleave.getElem?_set_cases hp hp'' with ⟨rfl, rfl⟩ | ⟨-, hp''⟩
    · rcases hpromise with ⟨-, -, hpromise⟩ | ⟨hq, -⟩
      · exact hpromise
      · rw [hq] at hr
        cases hr
    · have howner := h.owner j p'' hp'' hr
      rcases hpromise with ⟨-, hnone, -⟩ | ⟨-, hpromise⟩
      · rw [hnone] at howner
        cases howner
      · exact hpromise.trans howner
  · rcases Interleave.getElem?_set_cases hp hp'' with ⟨rfl, rfl⟩ | ⟨-, hp''⟩
    · rw [← htoken, ht]
      exact List.mem_cons_self
    · exact List.mem_append_right _ (h.sent j p'' token hp'' ht)
  · exact ⟨i, q, List.getElem?_set_self (List.getElem?_eq_some_iff.mp hp).1, htoken.trans hstored⟩
  · rcases List.mem_append.mp ht with ht | ht
    · exact h.stored token (Option.mem_toList.mp ht)
    · exact h.old token ht
  · rcases Interleave.getElem?_set_cases hp hp'' with ⟨rfl, rfl⟩ | ⟨-, hp''⟩
    · rw [hanswer] at ha
      cases ha
    · obtain ⟨hlt, hfresh, hstored⟩ := h.answer j p'' token hp'' ha
      refine ⟨hlt, fun ht => ?_, hstored⟩
      rcases List.mem_append.mp ht with ht | ht
      · exact hstored (Option.mem_toList.mp ht)
      · exact hfresh ht
  · rcases Interleave.getElem?_set_cases hp hp'' with ⟨rfl, rfl⟩ | ⟨-, hp''⟩
    · rw [hanswer] at ha
      cases ha
    · rcases Interleave.getElem?_set_cases hp hq'' with ⟨rfl, rfl⟩ | ⟨-, hq''⟩
      · rw [hanswer] at hb
        cases hb
      · exact h.distinct j k p'' q'' token hp'' hq'' ha hb

/-- The store is cleared, or has the new token that the call was waiting for. -/
theorem Flights.write (hsent : st'.sent = s.store.sent) (hpromise : st'.refreshPromise = s.store.refreshPromise)
    (hserver : st'.server = s.store.server)
    (hwritten : st'.tokens.refreshToken = none ∨ st'.tokens.refreshToken = p.answer) (htoken : q.token = none)
    (hanswer : q.answer = none) (hrefreshes : q.refreshes = p.refreshes) : Flights ⟨st', s.calls.set i q⟩ := by
  have hof : ∀ token, st'.tokens.refreshToken = some token → p.answer = some token := by
    intro token hstored
    rcases hwritten with hnone | hnew
    · rw [hnone] at hstored
      cases hstored
    · exact hnew ▸ hstored
  refine ⟨fun j p' hp' hr => ?_, fun j p' token hp' ht => ?_, fun token ht hstored => ?_, fun token hstored => ?_,
    fun token ht => ?_, fun j p' token hp' ha => ?_, fun j k p' q' token hp' hq' ha hb => ?_⟩
  · rw [hpromise]
    rcases Interleave.getElem?_set_cases hp hp' with ⟨rfl, rfl⟩ | ⟨-, hp'⟩
    · exact h.owner j p hp (hrefreshes ▸ hr)
    · exact h.owner j p' hp' hr
  · rw [hsent]
    rcases Interleave.getElem?_set_cases hp hp' with ⟨rfl, rfl⟩ | ⟨-, hp'⟩
    · rw [htoken] at ht
      cases ht
    · exact h.sent j p' token hp' ht
  · rw [hsent] at ht
    exact absurd ht (h.answer i p token hp (hof token hstored)).2.1
  · rw [hserver]
    exact (h.answer i p token hp (hof token hstored)).1
  · rw [hsent] at ht
    rw [hserver]
    exact h.old token ht
  · rcases Interleave.getElem?_set_cases hp hp' with ⟨rfl, rfl⟩ | ⟨hj, hp'⟩
    · rw [hanswer] at ha
      cases ha
    · rw [hserver, hsent]
      obtain ⟨hlt, hfresh, -⟩ := h.answer j p' token hp' ha
      exact ⟨hlt, hfresh, fun hstored => hj (h.distinct j i p' p token hp' hp ha (hof token hstored))⟩
  · rcases Interleave.getElem?_set_cases hp hp' with ⟨rfl, rfl⟩ | ⟨-, hother⟩
    · rw [hanswer] at ha
      cases ha
    · rcases Interleave.getElem?_set_cases hp hq' with ⟨rfl, rfl⟩ | ⟨-, hother'⟩
      · rw [hanswer] at hb
        cases hb
      · exact h.distinct j k p' q' token hother hother' ha hb

/-- The refresh that the others join is over. -/
theorem Flights.over (hp' : p.refreshes = true) (hpt : p.token = none) (hq : q.refreshes = false)
    (htoken : q.token = none)
    (hanswer : q.answer = none) (htokens : st'.tokens = s.store.tokens) (hsent : st'.sent = s.store.sent)
    (hserver : st'.server = s.store.server) : Flights ⟨st', s.calls.set i q⟩ := by
  refine ⟨fun j p' hp'' hr => ?_, fun j p' token hp'' ht => ?_, fun token ht hstored => ?_, fun token hstored => ?_,
    fun token ht => ?_, fun j p' token hp'' ha => ?_, fun j k p' q' token hp'' hq' ha hb => ?_⟩
  · rcases Interleave.getElem?_set_cases hp hp'' with ⟨rfl, rfl⟩ | ⟨hj, hp''⟩
    · rw [hq] at hr
      cases hr
    · have howner := (h.owner i p hp hp').symm.trans (h.owner j p' hp'' hr)
      exact absurd (Option.some.inj howner).symm hj
  · rw [hsent]
    rcases Interleave.getElem?_set_cases hp hp'' with ⟨rfl, rfl⟩ | ⟨-, hp''⟩
    · rw [htoken] at ht
      cases ht
    · exact h.sent j p' token hp'' ht
  · rw [hsent] at ht
    rw [htokens] at hstored
    obtain ⟨j, p', hp'', ht'⟩ := h.held token ht hstored
    have hj : i ≠ j := by
      rintro rfl
      obtain rfl : p = p' := Option.some.inj (hp.symm.trans hp'')
      rw [hpt] at ht'
      cases ht'
    exact ⟨j, p', (Interleave.getElem?_set_ne hj).mpr hp'', ht'⟩
  · rw [htokens] at hstored
    rw [hserver]
    exact h.stored token hstored
  · rw [hsent] at ht
    rw [hserver]
    exact h.old token ht
  · rw [hserver, hsent, htokens]
    rcases Interleave.getElem?_set_cases hp hp'' with ⟨rfl, rfl⟩ | ⟨-, hp''⟩
    · rw [hanswer] at ha
      cases ha
    · exact h.answer j p' token hp'' ha
  · rcases Interleave.getElem?_set_cases hp hp'' with ⟨rfl, rfl⟩ | ⟨-, hother⟩
    · rw [hanswer] at ha
      cases ha
    · rcases Interleave.getElem?_set_cases hp hq' with ⟨rfl, rfl⟩ | ⟨-, hother'⟩
      · rw [hanswer] at hb
        cases hb
      · exact h.distinct j k p' q' token hother hother' ha hb

theorem Flights.exec (hstep : stmt s.store i p c = some (st', q)) : Flights ⟨st', s.calls.set i q⟩ := by
  cases stmt_move hstep with
  | idle _ htokens hsent hpromise htoken _ hrefreshes _ _ hnext hanswer =>
    exact h.keep hp htokens hsent hpromise htoken hrefreshes hnext hanswer
  | @exchange q token _ _ htoken _ hrefreshes hanswer =>
    obtain ⟨hnext, hnew⟩ := refresh_next s.store.server token
    refine h.keep hp rfl rfl rfl htoken hrefreshes hnext fun answer ha => hnew answer ?_
    rw [← hanswer, ha]
  | begin _ hnone _ hq hanswer htoken _ => exact h.send hp (Or.inl ⟨hq, hnone, rfl⟩) hanswer htoken
  | @send token hstored _ =>
    have hsend := h.send (q := .manualSent token) hp (Or.inr ⟨rfl, rfl⟩) rfl hstored.symm
    rwa [hstored] at hsend
  | store _ hsent hpromise hserver hwritten htoken _ hanswer hrefreshes =>
    exact h.write hp hsent hpromise hserver hwritten htoken hanswer hrefreshes
  | settle _ hr hpt hq htoken _ hanswer htokens hsent hserver _ =>
    exact h.over hp hr hpt hq htoken hanswer htokens hsent hserver

end Exec

theorem flights_step {l : Label} (h : Flights s) (hstep : step s l = some t) : Flights t := by
  cases l with
  | start call => rw [Interleave.step_start hstep]; exact h.start
  | exec i c =>
    obtain ⟨p, st', q, hp, hq, rfl⟩ := Interleave.step_exec hstep
    exact h.exec hp hq

/-! ## When a token is sent twice -/

/-- A step that sends a token does so for the first call that has it. -/
def sendsOnce (s : Sys) : Label → Bool
  | .start _ => true
  | .exec i c => (s.calls[i]?.bind (spends s.store c)).all fun token => s.calls.all fun q => decide (q.token ≠ some token)

/-- A token that is sent comes from the store. -/
theorem spends_stored (h : spends st c p = some token) : st.tokens.refreshToken = some token := by
  unfold spends at h
  split at h
  · split at h
    · exact h
    · cases h
  · exact h
  · cases h

/-- A token of the store was sent exactly when a call has it. -/
theorem Flights.sent_iff (h : Flights s) (hstored : s.store.tokens.refreshToken = some token) :
    token ∈ s.store.sent ↔ ∃ q ∈ s.calls, q.token = some token := by
  constructor
  · intro hsent
    obtain ⟨i, p, hp, ht⟩ := h.held token hsent hstored
    exact ⟨p, List.mem_of_getElem? hp, ht⟩
  · rintro ⟨q, hq, ht⟩
    obtain ⟨i, hi⟩ := List.mem_iff_getElem?.mp hq
    exact h.sent i q token hi ht

theorem sendsOnce_iff (h : Flights s) (hp : s.calls[i]? = some p) :
    sendsOnce s (.exec i c) = true ↔ ∀ token, spends s.store c p = some token → token ∉ s.store.sent := by
  simp only [sendsOnce, hp, Option.bind_some, Option.all_eq_true, List.all_eq_true, decide_eq_true_eq]
  constructor
  · intro hnone token ht hsent
    obtain ⟨q, hq, hqt⟩ := (h.sent_iff (spends_stored ht)).mp hsent
    exact hnone token ht q hq hqt
  · intro hfresh token ht q hq hqt
    exact hfresh token ht ((h.sent_iff (spends_stored ht)).mpr ⟨q, hq, hqt⟩)

/-- The condition says of every step if it sends a token for the second time. -/
theorem nodup_sent_step {l : Label} (h : Flights s) (hn : s.store.sent.Nodup) (hstep : step s l = some t) :
    sendsOnce s l = true ↔ t.store.sent.Nodup := by
  cases l with
  | start call =>
    rw [Interleave.step_start hstep]
    exact ⟨fun _ => hn, fun _ => rfl⟩
  | exec i c =>
    obtain ⟨p, st', q, hp, hq, rfl⟩ := Interleave.step_exec hstep
    rw [sendsOnce_iff h hp, stmt_sent hq]
    cases hs : spends s.store c p with
    | none => simp [hn]
    | some token => simp [hn]

/-! ## The server -/

/-- No token that a call has sent, and the server has not seen, was rotated before; a token that was rotated and is in
the store was sent. -/
structure Unspent (s : Sys) : Prop where
  notRevoked : s.store.server.revoked = false
  spent : ∀ token ∈ s.store.server.spent, token < s.store.server.next
  stored : ∀ token ∈ s.store.server.spent, s.store.tokens.refreshToken = some token → token ∈ s.store.sent
  answer : ∀ (i : Nat) (p : Point) (token : Token), s.calls[i]? = some p → p.answer = some token →
    token ∉ s.store.server.spent
  underway : ∀ (i : Nat) (p : Point) (token : Token), s.calls[i]? = some p → p.underway = some token →
    token ∉ s.store.server.spent
  apart : ∀ (i j : Nat) (p q : Point) (token : Token), s.calls[i]? = some p → s.calls[j]? = some q →
    p.underway = some token → q.underway = some token → i = j

theorem underway_token (h : p.underway = some token) : p.token = some token := by
  cases p <;> first | exact h | cases h

/-- A token that was not rotated before is no theft. -/
theorem refresh_unspent {server : Server} (h : token ∉ server.spent) : (server.refresh token).1.revoked = server.revoked ∧
    ∀ x ∈ (server.refresh token).1.spent, x = token ∨ x ∈ server.spent := by
  unfold Server.refresh
  split
  · exact ⟨rfl, fun x hx => List.mem_cons.mp hx⟩
  · exact ⟨rfl, fun x hx => Or.inr hx⟩

theorem Unspent.start {call : Call} (h : Unspent s) : Unspent ⟨s.store, s.calls ++ [entry call]⟩ := by
  have hentry : (entry call).answer = none ∧ (entry call).underway = none := by
    cases call <;> exact ⟨rfl, rfl⟩
  obtain ⟨hanswer, hunderway⟩ := hentry
  refine ⟨h.notRevoked, h.spent, h.stored, fun i p token hp ha => ?_, fun i p token hp hu => ?_,
    fun i j p q token hp hq hu hv => ?_⟩
  · rcases Interleave.getElem?_append_cases hp with ⟨-, rfl⟩ | hp
    · rw [hanswer] at ha
      cases ha
    · exact h.answer i p token hp ha
  · rcases Interleave.getElem?_append_cases hp with ⟨-, rfl⟩ | hp
    · rw [hunderway] at hu
      cases hu
    · exact h.underway i p token hp hu
  · rcases Interleave.getElem?_append_cases hp with ⟨-, rfl⟩ | hp
    · rw [hunderway] at hu
      cases hu
    · rcases Interleave.getElem?_append_cases hq with ⟨-, rfl⟩ | hq
      · rw [hunderway] at hv
        cases hv
      · exact h.apart i j p q token hp hq hu hv

section Exec

variable (h : Unspent s) (hp : s.calls[i]? = some p)
include h hp

/-- No token is sent or rotated. -/
theorem Unspent.quiet (hsent : st'.sent = s.store.sent) (hspent : st'.server.spent = s.store.server.spent)
    (hrevoked : st'.server.revoked = s.store.server.revoked) (hnext : s.store.server.next ≤ st'.server.next)
    (hstored : ∀ token, st'.tokens.refreshToken = some token →
      s.store.tokens.refreshToken = some token ∨ p.answer = some token)
    (hunderway : q.underway = none) (hanswer : ∀ token, q.answer = some token → token ∉ s.store.server.spent) :
    Unspent ⟨st', s.calls.set i q⟩ := by
  refine ⟨hrevoked.trans h.notRevoked, fun token ht => ?_, fun token ht hs => ?_, fun j p' token hp' ha => ?_,
    fun j p' token hp' hu => ?_, fun j k p' q' token hp' hq' hu hv => ?_⟩
  · rw [hspent] at ht
    exact Nat.lt_of_lt_of_le (h.spent token ht) hnext
  · rw [hspent] at ht
    rw [hsent]
    rcases hstored token hs with hs | ha
    · exact h.stored token ht hs
    · exact absurd ht (h.answer i p token hp ha)
  · rw [hspent]
    rcases Interleave.getElem?_set_cases hp hp' with ⟨rfl, rfl⟩ | ⟨-, hp'⟩
    · exact hanswer token ha
    · exact h.answer j p' token hp' ha
  · rw [hspent]
    rcases Interleave.getElem?_set_cases hp hp' with ⟨rfl, rfl⟩ | ⟨-, hp'⟩
    · rw [hunderway] at hu
      cases hu
    · exact h.underway j p' token hp' hu
  · rcases Interleave.getElem?_set_cases hp hp' with ⟨rfl, rfl⟩ | ⟨-, hother⟩
    · rw [hunderway] at hu
      cases hu
    · rcases Interleave.getElem?_set_cases hp hq' with ⟨rfl, rfl⟩ | ⟨-, hother'⟩
      · rw [hunderway] at hv
        cases hv
      · exact h.apart j k p' q' token hother hother' hu hv

/-- The server rotates the token of the call. -/
theorem Unspent.rotate (hf : Flights s) (hu : p.underway = some token) (hunderway : q.underway = none)
    (hanswer : q.answer = (s.store.server.refresh token).2) :
    Unspent ⟨{ s.store with server := (s.store.server.refresh token).1 }, s.calls.set i q⟩ := by
  obtain ⟨hrevoked, hspent⟩ := refresh_unspent (h.underway i p token hp hu)
  obtain ⟨hnext, hnew⟩ := refresh_next s.store.server token
  have hsent : token ∈ s.store.sent := hf.sent i p token hp (underway_token hu)
  have hold : token < s.store.server.next := hf.old token hsent
  refine ⟨hrevoked.trans h.notRevoked, fun x hx => ?_, fun x hx hs => ?_, fun j p' x hp' ha hx => ?_,
    fun j p' x hp' hv hx => ?_, fun j k p' q' x hp' hq' hv hw => ?_⟩
  · refine Nat.lt_of_lt_of_le ?_ hnext
    rcases hspent x hx with rfl | hx
    · exact hold
    · exact h.spent x hx
  · rcases hspent x hx with rfl | hx
    · exact hsent
    · exact h.stored x hx hs
  · rcases Interleave.getElem?_set_cases hp hp' with ⟨rfl, rfl⟩ | ⟨-, hother⟩
    · -- the new token is younger than all that are spent
      have hyoung : x = s.store.server.next := (hnew x (by rw [← hanswer, ha])).1
      rcases hspent x hx with hx | hx
      · exact absurd (hx.symm.trans hyoung) (Nat.ne_of_lt hold)
      · exact absurd hyoung (Nat.ne_of_lt (h.spent x hx))
    · rcases hspent x hx with hx | hx
      · exact (hf.answer j p' x hother ha).2.1 (hx ▸ hsent)
      · exact h.answer j p' x hother ha hx
  · rcases Interleave.getElem?_set_cases hp hp' with ⟨rfl, rfl⟩ | ⟨hj, hother⟩
    · rw [hunderway] at hv
      cases hv
    · rcases hspent x hx with hx | hx
      · exact hj (h.apart j i p' p token hother hp (hx ▸ hv) hu)
      · exact h.underway j p' x hother hv hx
  · rcases Interleave.getElem?_set_cases hp hp' with ⟨rfl, rfl⟩ | ⟨-, hother⟩
    · rw [hunderway] at hv
      cases hv
    · rcases Interleave.getElem?_set_cases hp hq' with ⟨rfl, rfl⟩ | ⟨-, hother'⟩
      · rw [hunderway] at hw
        cases hw
      · exact h.apart j k p' q' x hother hother' hv hw

/-- The call sends the token of the store, which was not sent before. -/
theorem Unspent.send (hf : Flights s) (promise : Option Nat)
    (hfresh : ∀ token, s.store.tokens.refreshToken = some token → token ∉ s.store.sent)
    (hanswer : q.answer = none) (hunderway : q.underway = s.store.tokens.refreshToken) :
    Unspent ⟨{ s.store with refreshPromise := promise, sent := s.store.tokens.refreshToken.toList ++ s.store.sent },
      s.calls.set i q⟩ := by
  have hapart : ∀ (j : Nat) (p' : Point) (token : Token), s.calls[j]? = some p' → p'.underway = some token →
      s.store.tokens.refreshToken ≠ some token := fun j p' token hp' hu hstored =>
    hfresh token hstored (hf.sent j p' token hp' (underway_token hu))
  refine ⟨h.notRevoked, h.spent, fun token ht hs => List.mem_append_right _ (h.stored token ht hs),
    fun j p' token hp' ha => ?_,
    fun j p' token hp' hu => ?_, fun j k p' q' token hp' hq' hu hv => ?_⟩
  · rcases Interleave.getElem?_set_cases hp hp' with ⟨rfl, rfl⟩ | ⟨-, hp'⟩
    · rw [hanswer] at ha
      cases ha
    · exact h.answer j p' token hp' ha
  · rcases Interleave.getElem?_set_cases hp hp' with ⟨rfl, rfl⟩ | ⟨-, hp'⟩
    · rw [hunderway] at hu
      exact fun ht => hfresh token hu (h.stored token ht hu)
    · exact h.underway j p' token hp' hu
  · rcases Interleave.getElem?_set_cases hp hp' with ⟨rfl, rfl⟩ | ⟨-, hother⟩
    · rcases Interleave.getElem?_set_cases hp hq' with ⟨rfl, rfl⟩ | ⟨-, hother'⟩
      · rfl
      · exact absurd (hunderway ▸ hu) (hapart k q' token hother' hv)
    · rcases Interleave.getElem?_set_cases hp hq' with ⟨rfl, rfl⟩ | ⟨-, hother'⟩
      · exact absurd (hunderway ▸ hv) (hapart j p' token hother hu)
      · exact h.apart j k p' q' token hother hother' hu hv

theorem Unspent.exec (hf : Flights s) (hfresh : ∀ token, spends s.store c p = some token → token ∉ s.store.sent)
    (hstep : stmt s.store i p c = some (st', q)) : Unspent ⟨st', s.calls.set i q⟩ := by
  cases stmt_move hstep with
  | idle _ htokens hsent _ _ hunderway _ hspent hrevoked hnext hanswer =>
    refine h.quiet hp hsent hspent hrevoked hnext (fun token hs => Or.inl (htokens ▸ hs)) hunderway fun token ha ht => ?_
    exact absurd (hanswer token ha).1 (Nat.ne_of_lt (h.spent token ht))
  | exchange _ hu _ hunderway _ hanswer => exact h.rotate hp hf hu hunderway hanswer
  | begin hspends _ _ _ hanswer _ hunderway => exact h.send hp hf (some i) (hspends ▸ hfresh) hanswer hunderway
  | @send token hstored hmanual =>
    subst hmanual
    have hsend := h.send (q := .manualSent token) hp hf s.store.refreshPromise hfresh rfl hstored.symm
    rwa [hstored] at hsend
  | store _ hsent _ hserver hwritten _ hunderway hanswer _ =>
    refine h.quiet hp hsent (by rw [hserver]) (by rw [hserver]) (hserver ▸ Nat.le_refl _) (fun token hs => ?_) hunderway
      fun token ha => ?_
    · rcases hwritten with hnone | hnew
      · rw [hnone] at hs
        cases hs
      · exact Or.inr (hnew ▸ hs)
    · rw [hanswer] at ha
      cases ha
  | settle _ _ _ _ _ hunderway hanswer htokens hsent hserver _ =>
    refine h.quiet hp hsent (by rw [hserver]) (by rw [hserver]) (hserver ▸ Nat.le_refl _)
      (fun token hs => Or.inl (htokens ▸ hs)) hunderway
      fun token ha => ?_
    rw [hanswer] at ha
    cases ha

end Exec

theorem unspent_step {l : Label} (hf : Flights s) (h : Unspent s) (honce : sendsOnce s l = true)
    (hstep : step s l = some t) :
    Unspent t := by
  cases l with
  | start call => rw [Interleave.step_start hstep]; exact h.start
  | exec i c =>
    obtain ⟨p, st', q, hp, hq, rfl⟩ := Interleave.step_exec hstep
    exact h.exec hp hf ((sendsOnce_iff hf hp).mp honce) hq

/-! ## Runs -/

section Runs

variable {tokens : TokenStore} {server : Server} {labels : List Label} {u : Sys}

/-- The stored token was given out by the server. -/
theorem flights_init (hstored : ∀ token, tokens.refreshToken = some token → token < server.next) :
    Flights (init tokens server) where
  owner _ _ hp := nomatch hp
  sent _ _ _ hp := nomatch hp
  held _ ht := nomatch ht
  stored := hstored
  old _ ht := nomatch ht
  answer _ _ _ hp := nomatch hp
  distinct _ _ _ _ _ hp := nomatch hp

theorem unspent_init (hrevoked : server.revoked = false) (hspent : ∀ token ∈ server.spent, token < server.next)
    (hvalid : ∀ token ∈ server.spent, tokens.refreshToken ≠ some token) : Unspent (init tokens server) where
  notRevoked := hrevoked
  spent := hspent
  stored token ht hs := absurd hs (hvalid token ht)
  answer _ _ _ hp := nomatch hp
  underway _ _ _ hp := nomatch hp
  apart _ _ _ _ _ hp := nomatch hp

/-- **No token is sent twice exactly in the runs whose steps send only tokens that no other call has.** In these the
server never sees a theft. -/
theorem single_flight_iff (hstored : ∀ token, tokens.refreshToken = some token → token < server.next)
    (hspent : ∀ token ∈ server.spent, token < server.next ∧ tokens.refreshToken ≠ some token)
    (hrevoked : server.revoked = false) (hr : Runs.run step (init tokens server) labels = some u) :
    (Runs.Throughout step (fun s => s.store.sent.Nodup) (init tokens server) labels ↔
        Runs.Along step (fun s l => sendsOnce s l = true) (init tokens server) labels) ∧
      (Runs.Along step (fun s l => sendsOnce s l = true) (init tokens server) labels →
        Runs.Throughout step (fun s => s.store.server.revoked = false) (init tokens server) labels) := by
  constructor
  · exact Runs.throughout_iff_along_inv (K := Flights)
      (fun s l t hn hf hstep => ⟨nodup_sent_step hf hn hstep, flights_step hf hstep⟩) List.nodup_nil
        (flights_init hstored) hr
  · intro halong pre post t hsplit hpre
    rw [hsplit] at halong
    have hinv : Flights t ∧ Unspent t :=
      Runs.inv_run_along (I := fun s => Flights s ∧ Unspent s)
        (fun s l t hs honce hstep => ⟨flights_step hs.1 hstep, unspent_step hs.1 hs.2 honce hstep⟩)
        ⟨flights_init hstored, unspent_init hrevoked (fun token ht => (hspent token ht).1) fun token ht =>
          (hspent token ht).2⟩
        (Runs.along_append.mp halong).1 hpre
    exact hinv.2.notRevoked

section Demo

private def tokens₁ : TokenStore := ⟨some 1, some 1⟩

private def server₁ : Server := ⟨2, [1], [], false⟩

private def arrived : Choice := ⟨true, .ok, true⟩

private def refused : Choice := ⟨true, .unauthorized, true⟩

/-- A request and a download are refused, share one refresh and are repeated. -/
private def shared : List Label :=
  [.start (.authenticated .request), .start (.authenticated .download), .exec 0 refused, .exec 1 refused, .exec 0 refused,
    .exec 1 refused, .exec 0 refused, .exec 1 refused, .exec 0 arrived, .exec 0 arrived, .exec 0 arrived, .exec 1 arrived]

theorem single_flight_iff_shared :
    Runs.Throughout step (fun s => s.store.sent.Nodup) (init tokens₁ server₁) shared ∧
      Runs.Throughout step (fun s => s.store.server.revoked = false) (init tokens₁ server₁) shared := by
  have hrun : (Runs.run step (init tokens₁ server₁) shared).isSome = true := by decide +kernel
  obtain ⟨u, hu⟩ := Option.isSome_iff_exists.mp hrun
  have hiff := single_flight_iff (by decide) (by decide) (by decide) hu
  have halong : Runs.Along step (fun s l => sendsOnce s l = true) (init tokens₁ server₁) shared := by decide +kernel
  exact ⟨hiff.1.mpr halong, hiff.2 halong⟩

/-- The refresh of a refused request and `auth.refresh` send the same token, and the server revokes the family. -/
theorem same_token_twice : ∃ labels u, Runs.run step (init tokens₁ server₁) labels = some u ∧ ¬u.store.sent.Nodup ∧
    u.store.server.revoked = true := by
  have hrun : (Runs.run step (init tokens₁ server₁) [.start (.authenticated .request), .start .refresh, .exec 0 refused,
      .exec 0 refused, .exec 0 refused, .exec 1 arrived, .exec 0 arrived, .exec 1 arrived]).any
      (fun u => decide (u.store.sent = [1, 1]) && u.store.server.revoked) = true := by decide +kernel
  obtain ⟨u, hu, htwice⟩ := (Option.any_eq_true _ _).mp hrun
  simp only [Bool.and_eq_true, decide_eq_true_eq] at htwice
  refine ⟨_, u, hu, ?_, htwice.2⟩
  rw [htwice.1]
  decide

end Demo

/-! ## Requests and downloads alone -/

/-- The call is an `auth.refresh`. -/
def Point.manual : Point → Bool
  | .manualRead | .manualSent _ | .manualAnswered _ _ | .manualFailed _ => true
  | _ => false

theorem stmt_manual (h : stmt st i p c = some (st', q)) (hp : p.manual = false) : q.manual = false := by
  cases p with
  | manualRead | manualSent _ | manualAnswered _ _ | manualFailed _ => cases hp
  | answered kind retried status =>
    simp only [stmt, tryRefresh] at h
    split at h
    · cases h; rfl
    · split at h
      · cases h; rfl
      · split at h
        · cases h; rfl
        · split at h <;> (cases h; rfl)
      · cases h; rfl
  | refreshSent kind token => cases h; rfl
  | settling kind result => cases h; rfl
  | fetch kind retried => cases h; rfl
  | logoutAnswered => cases h; rfl
  | loginRead => cases h; rfl
  | done => cases h
  | sent _ _ | refreshAnswered _ _ _ | logoutRead | logoutSent _ | loginSent | loginAnswered _ =>
    simp only [stmt] at h
    split at h <;> (cases h; rfl)
  | awaiting kind promise =>
    simp only [stmt] at h
    split at h
    · cases h
    · cases h; rfl
    · cases h; rfl

/-- A call that has sent a token runs the refresh that the others join, if it is no `auth.refresh`. -/
theorem refreshes_of_token (ht : p.token = some token) (hp : p.manual = false) : p.refreshes = true := by
  cases p with
  | refreshSent kind token => rfl
  | refreshAnswered kind token answer => rfl
  | manualSent _ | manualAnswered _ _ | manualFailed _ => cases hp
  | _ => cases ht

theorem sendsOnce_of_requests {l : Label} (h : Flights s) (hm : ∀ p ∈ s.calls, p.manual = false) :
    sendsOnce s l = true := by
  cases l with
  | start call => rfl
  | exec i c =>
    cases hp : s.calls[i]? with
    | none => simp [sendsOnce, hp]
    | some p =>
      refine (sendsOnce_iff h hp).mpr fun token ht hsent => ?_
      obtain ⟨q, hq, hqt⟩ := (h.sent_iff (spends_stored ht)).mp hsent
      obtain ⟨j, hj⟩ := List.mem_iff_getElem?.mp hq
      have howner := h.owner j q hj (refreshes_of_token hqt (hm q hq))
      -- the call at `p` may begin a refresh only while there is none
      have hpm := hm p (List.mem_of_getElem? hp)
      cases p with
      | answered kind retried status => simp [spends, howner] at ht
      | manualRead => cases hpm
      | _ => cases ht

/-- The refresh that requests and downloads share is one: without `auth.refresh` no step sends a token that another call
has. -/
theorem along_sendsOnce_requests (hstored : ∀ token, tokens.refreshToken = some token → token < server.next)
    (hlabels : ∀ l ∈ labels, l ≠ .start .refresh) :
    Runs.Along step (fun s l => sendsOnce s l = true) (init tokens server) labels := by
  refine Runs.along_of_prefixes fun pre l post t hsplit _ hpre => ?_
  have hinv : Flights t ∧ ∀ p ∈ t.calls, p.manual = false := by
    refine Runs.inv_run_along (I := fun s => Flights s ∧ ∀ p ∈ s.calls, p.manual = false)
      (P := fun _ l => True ∧ l ≠ .start .refresh) (fun s l t hs hl hstep => ⟨flights_step hs.1 hstep, ?_⟩)
        ⟨flights_init hstored, fun p hp => nomatch hp⟩ ?_ hpre
    · cases l with
      | start call =>
        rw [Interleave.step_start hstep]
        intro p hp
        rcases List.mem_append.mp hp with hp | hp
        · exact hs.2 p hp
        · rw [List.mem_singleton.mp hp]
          cases call with
          | refresh => exact absurd rfl hl.2
          | _ => rfl
      | exec i c =>
        obtain ⟨p, st', q, hp, hq, rfl⟩ := Interleave.step_exec hstep
        intro p' hp'
        rcases List.mem_or_eq_of_mem_set hp' with hp' | rfl
        · exact hs.2 p' hp'
        · exact stmt_manual hq (hs.2 p (List.mem_of_getElem? hp))
    · refine Runs.along_and_labels (Runs.along_of_forall (fun _ _ => trivial) _ _) fun l hl => hlabels l ?_
      rw [hsplit]
      exact List.mem_append_left _ hl
  exact sendsOnce_of_requests hinv.1 hinv.2

end Runs

end AdWiki.ApiClient
