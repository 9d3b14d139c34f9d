import AdWiki.ApiClient.Http

/-!
# Logout

`logout` and `changePassword` clear the store when they end. An answer with a new pair that is still on its way then
writes the store again: nothing takes a refresh back, and nothing asks if the store was cleared since the request.

* `stmt_store`: what a step does to the store.
* `signedOut_iff`: the runs in which the store stays empty after a logout.
* `written_after_logout`: a refresh that is answered after the logout.
-/

namespace AdWiki.ApiClient

variable {st st' : Client} {i : Nat} {p q : Point} {c : Choice} {s t : Sys}

/-- The next step of the call stores the new pair it was waiting for. -/
def delivers (c : Choice) (p : Point) : Bool := p.answer.isSome && c.arrives

/-- The store has no token once a logout or a change of the password has ended, until the next login is started. -/
def SignedOut (st : Client) : Prop := st.signedOut = true → st.tokens = .empty

/-- What a step does to the store: a new pair, nothing at all, or nothing that leaves a token. -/
inductive StoreMove (st : Client) (c : Choice) (p : Point) (st' : Client) : Prop
  | deliver (hdelivers : delivers c p = true) (hstored : st'.tokens.accessToken.isSome = true)
    (hsignedOut : st'.signedOut = st.signedOut)
  | keep (hdelivers : delivers c p = false) (htokens : st'.tokens = st.tokens) (hsignedOut : st'.signedOut = st.signedOut)
  | empty (hdelivers : delivers c p = false) (htokens : st'.tokens = .empty)
  | login (hdelivers : delivers c p = false) (hsignedOut : st'.signedOut = false)

theorem delivers_of_answer {token : Token} (hanswer : p.answer = some token) (harrives : c.arrives = true) :
    delivers c p = true := by
  simp [delivers, hanswer, harrives]

/-- No pair, or none that the client gets. -/
theorem not_delivers (h : ∀ token, p.answer = some token → c.arrives = true → False) : delivers c p = false := by
  cases hanswer : p.answer with
  | none => simp [delivers, hanswer]
  | some token =>
    have hlost : c.arrives = false := Bool.eq_false_iff.mpr (h token hanswer)
    simp [delivers, hlost]

theorem stmt_store (h : stmt st i p c = some (st', q)) : StoreMove st c p st' := by
  cases p with
  | fetch kind retried =>
    cases h
    exact .keep rfl rfl rfl
  | sent kind retried =>
    simp only [stmt] at h
    split at h <;> (cases h; exact .keep rfl rfl rfl)
  | answered kind retried status =>
    simp only [stmt] at h
    split at h
    · cases h
      exact .keep rfl rfl rfl
    · split at h
      · cases h
        cases kind with
        | changePassword => exact .empty rfl rfl
        | request => exact .keep rfl rfl rfl
        | download => exact .keep rfl rfl rfl
      · unfold tryRefresh at h
        split at h
        · cases h
          exact .keep rfl rfl rfl
        · split at h <;> (cases h; exact .keep rfl rfl rfl)
      · cases h
        exact .keep rfl rfl rfl
  | refreshSent kind token | manualSent token =>
    simp only [stmt, exchange, Option.some.injEq, Prod.mk.injEq] at h
    obtain ⟨rfl, rfl⟩ := h
    split <;> exact .keep rfl rfl rfl
  | refreshAnswered kind token answer =>
    simp only [stmt] at h
    split at h
    · next new harrives =>
      cases h
      exact .deliver (delivers_of_answer rfl harrives) rfl rfl
    · next hnot =>
      cases h
      exact .empty (not_delivers hnot) rfl
  | settling kind result =>
    cases h
    exact .keep rfl rfl rfl
  | awaiting kind promise =>
    simp only [stmt] at h
    split at h
    · cases h
    · cases h
      exact .keep rfl rfl rfl
    · cases h
      exact .keep rfl rfl rfl
  | manualRead =>
    simp only [stmt] at h
    split at h <;> (cases h; exact .keep rfl rfl rfl)
  | manualAnswered token answer | loginAnswered answer =>
    simp only [stmt] at h
    split at h
    · next new harrives =>
      cases h
      exact .deliver (delivers_of_answer rfl harrives) rfl rfl
    · next hnot =>
      cases h
      exact .keep (not_delivers hnot) rfl rfl
  | logoutRead =>
    simp only [stmt] at h
    split at h
    · cases h
      exact .empty rfl rfl
    · cases h
      exact .keep rfl rfl rfl
  | logoutSent token | loginSent =>
    simp only [stmt] at h
    split at h <;> (cases h; exact .keep rfl rfl rfl)
  | logoutAnswered =>
    cases h
    exact .empty rfl rfl
  | loginRead =>
    cases h
    exact .login rfl rfl
  | manualFailed token => cases h
  | done => cases h

/-- A new pair is stored only while nobody is signed out. -/
def pairsInTime (s : Sys) : Label → Bool
  | .start _ => true
  | .exec i c => s.calls[i]?.all fun p => !(delivers c p && s.store.signedOut)

/-- The condition says of every step if it writes the store of a user who has signed out. -/
theorem signedOut_step {l : Label} (h : SignedOut s.store) (hstep : step s l = some t) :
    pairsInTime s l = true ↔ SignedOut t.store := by
  cases l with
  | start call =>
    rw [Interleave.step_start hstep]
    exact ⟨fun _ => h, fun _ => rfl⟩
  | exec i c =>
    obtain ⟨p, st', q, hp, hq, rfl⟩ := Interleave.step_exec hstep
    simp only [pairsInTime, hp, Option.all_some]
    cases stmt_store hq with
    | deliver hdelivers hstored hsignedOut =>
      rw [hdelivers]
      constructor
      · intro hin hout
        rw [hsignedOut] at hout
        simp [hout] at hin
      · intro hempty
        cases hout : s.store.signedOut with
        | false => rfl
        | true =>
          rw [hempty (hsignedOut.trans hout)] at hstored
          cases hstored
    | keep hdelivers htokens hsignedOut =>
      rw [hdelivers]
      exact ⟨fun _ hout => htokens.trans (h (hsignedOut ▸ hout)), fun _ => rfl⟩
    | empty hdelivers htokens =>
      rw [hdelivers]
      exact ⟨fun _ _ => htokens, fun _ => rfl⟩
    | login hdelivers hsignedOut =>
      rw [hdelivers]
      refine ⟨fun _ hout => ?_, fun _ => rfl⟩
      rw [hsignedOut] at hout
      cases hout

/-- **The store stays empty after a logout exactly in the runs in which no new pair comes after it.** -/
theorem signedOut_iff {tokens : TokenStore} {server : Server} {labels : List Label} {u : Sys}
    (hr : Runs.run step (init tokens server) labels = some u) :
    Runs.Throughout step (fun s => SignedOut s.store) (init tokens server) labels ↔
      Runs.Along step (fun s l => pairsInTime s l = true) (init tokens server) labels :=
  Runs.throughout_iff_along (fun _ _ _ hs hstep => signedOut_step hs hstep) (fun hout => nomatch hout) hr

section Demo

private def storedPair : TokenStore := ⟨some 1, some 1⟩

private def oneSession : Server := ⟨2, [1], [], false⟩

private def comes : Choice := ⟨true, .ok, true⟩

private def denied : Choice := ⟨true, .unauthorized, true⟩

/-- The refresh of a refused request is answered, then the user signs out. -/
private def answeredFirst : List Label :=
  [.start (.authenticated .request), .exec 0 denied, .exec 0 denied, .exec 0 denied, .start .logout, .exec 0 comes,
    .exec 0 comes,
    .exec 1 comes, .exec 1 comes, .exec 1 comes, .exec 0 comes]

theorem signedOut_iff_answeredFirst :
    Runs.Throughout step (fun s => SignedOut s.store) (init storedPair oneSession) answeredFirst := by
  have hrun : (Runs.run step (init storedPair oneSession) answeredFirst).isSome = true := by decide +kernel
  obtain ⟨u, hu⟩ := Option.isSome_iff_exists.mp hrun
  exact (signedOut_iff hu).mpr (by decide +kernel)

/-- A refused request has its refresh on the wire; the user signs out; then the new pair comes. -/
theorem written_after_logout : ∃ labels u, Runs.run step (init storedPair oneSession) labels = some u ∧
    (∀ l ∈ labels, l ≠ .start .login ∧ l ≠ .start .refresh) ∧ u.store.signedOut = true ∧ u.store.tokens ≠ .empty := by
  have hrun :
    (Runs.run step (init storedPair oneSession) [.start (.authenticated .request), .exec 0 denied, .exec 0 denied,
      .exec 0 denied, .exec 0 comes, .start .logout, .exec 1 comes, .exec 1 comes, .exec 1 comes, .exec 0 comes]).any
      (fun u => u.store.signedOut && decide (u.store.tokens ≠ .empty)) = true := by decide +kernel
  obtain ⟨u, hu, hwritten⟩ := (Option.any_eq_true _ _).mp hrun
  simp only [Bool.and_eq_true, decide_eq_true_eq] at hwritten
  exact ⟨_, u, hu, by simp, hwritten⟩

end Demo

end AdWiki.ApiClient
