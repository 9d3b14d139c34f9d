import AdWiki.Auth.Revocation

/-!
# The last way to sign in

A user signs in with a local password or with an identity at a provider. The calls are those of the session services,
which link, unlink and cascade identities and set passwords, and the provisioning of an account at a first login.

* `accounts_of_stmt`: what a statement does to users and identities, but for the deletion of a provider.
* `signIn_kept_iff`: the runs in which every user keeps a way to sign in.
* `locked_out_by_removal`: the deletion of a provider leaves a user without one.
-/

namespace AdWiki.Auth

/-! ## Provisioning an account -/

/-- What the login has read of the provider. -/
structure JitProvider where
  id : String
  defaultRoleId : Option String
  deriving DecidableEq

structure MappedOidcProfile where
  subject : String
  email : String
  deriving DecidableEq

inductive SignInCall
  | auth (r : Call)
  | provisionIdentity (provider : JitProvider) (issuer : String) (profile : MappedOidcProfile)

inductive SignInPoint
  | auth (p : Point)
  | provisionRole (provider : JitProvider) (issuer : String) (profile : MappedOidcProfile)
  | provisionTx (providerId issuer : String) (profile : MappedOidcProfile) (passwordHash : String)

def signInEntry (env : Env) : SignInCall → SignInPoint
  | .auth r => .auth (entry env r)
  | .provisionIdentity provider issuer profile => .provisionRole provider issuer profile

/-- `id` is that of a new identity, `userId` that of a new user. -/
structure SignInChoice extends Choice where
  userId : String

section Statements

variable (env : Env) (toLowerCase : String → String)

def signInRefused (st : Store) (e : HttpError) : Option (Store × SignInPoint) := some (st, .auth (.done (.error e)))

/-- The transaction of `provisionIdentity`. Whether a user name is free is left to the choice. -/
def provisionTx (st : Store) (providerId issuer : String) (profile : MappedOidcProfile) (passwordHash : String)
    (c : SignInChoice) : Option (Store × SignInPoint) :=
  if st.users.any
    (fun user => toLowerCase user.email == toLowerCase profile.email || user.email == toLowerCase profile.email) then
    signInRefused st (.oidc "account_conflict")
  else if c.accepted = false then signInRefused st (.oidc "account_conflict")
  else if st.identities.any
    (fun row => row.providerId == providerId && row.issuer == issuer && row.subject == profile.subject) then
    signInRefused st (.oidc "account_conflict")
  else if (st.provider providerId).isNone then signInRefused st .foreignKey
  else if st.users.any (·.id == c.userId) || (st.log.filterMap Event.identityId).contains c.id then none
  else
    let user : User := ⟨c.userId, toLowerCase profile.email, passwordHash, true, false, false⟩
    let identity : ExternalIdentity := ⟨c.id, providerId, c.userId, issuer, profile.subject⟩
    some ({ st with
        users := st.users ++ [user]
        identities := st.identities ++ [identity]
        log := .linked identity :: st.log },
      .auth (.done (.ok .empty)))

/-- One statement or transaction. Whether the default role is safe is left to the choice. -/
def signInStmt (st : Store) (i : Nat) (p : SignInPoint) (c : SignInChoice) : Option (Store × SignInPoint) :=
  match p with
  | .auth p => (stmt env st i p c.toChoice).map fun q => (q.1, .auth q.2)
  | .provisionRole provider issuer profile =>
    if provider.defaultRoleId.all (· = "") ∨ c.accepted = false then signInRefused st (.oidc "jit_unavailable")
    else some (st, .provisionTx provider.id issuer profile (env.bcrypt c.token))
  | .provisionTx providerId issuer profile passwordHash =>
    provisionTx toLowerCase st providerId issuer profile passwordHash c

end Statements

abbrev SignInSys := Interleave.Sys Store SignInPoint

abbrev SignInLabel := Interleave.Label SignInCall SignInChoice

abbrev signInStep (env : Env) (toLowerCase : String → String) : SignInSys → SignInLabel → Option SignInSys :=
  Interleave.step (signInEntry env) (signInStmt env toLowerCase)

def signInInit (setup : Setup) : SignInSys := ⟨(init setup).store, []⟩

/-- Every user has a local password or an identity. -/
def SignsIn (st : Store) : Prop :=
  ∀ user ∈ st.users, user.hasLocalPassword = true ∨ ∃ identity ∈ st.identities, identity.userId = user.id

/-- A deletion of a provider finds that every user has a local password or an identity elsewhere. -/
def removalKeepsWay (s : SignInSys) : SignInLabel → Bool
  | .start _ => true
  | .exec i _ =>
    match s.calls[i]? with
    | some (.auth (.removeDelete provider)) =>
      (s.store.provider provider.id).isNone || s.store.users.all fun user =>
        user.hasLocalPassword || s.store.identities.any fun row => row.userId == user.id && row.providerId != provider.id
    | _ => true

variable {env : Env} {toLowerCase : String → String} {st st' : Store} {i : Nat} {p q : Point} {c : Choice}

/-! ## Users and identities -/

/-- What a statement does to them. -/
inductive Accounts (st st' : Store) : Prop
  | kept (husers : st'.users = st.users) (hidentities : st'.identities = st.identities)
  | passwordSet (userId passwordHash : String) (now : Time) (hst : st' = setPassword st userId passwordHash now)
  | linked (identity : ExternalIdentity) (hfresh : identity.id ∉ st.log.filterMap Event.identityId)
    (hst : st' = { st with identities := st.identities ++ [identity], log := .linked identity :: st.log })
  | unlinked (identity : ExternalIdentity) (hmem : identity ∈ st.identities)
    (hway : (st.user identity.userId).any (·.hasLocalPassword) = true ∨
      1 < st.identities.countP (·.userId == identity.userId))
    (husers : st'.users = st.users) (hidentities : st'.identities = Rows.deleteMany (·.id == identity.id) st.identities)

theorem accounts_of_refused {e : HttpError} (h : refused st e = some (st', q)) : Accounts st st' := by
  cases h
  exact .kept rfl rfl

theorem accounts_of_refreshTx {payload : JwtPayload} {tokenHash : String} {now : Time} {context : RequestContext}
    (h : refreshTx env st payload tokenHash now context c = some (st', q)) : Accounts st st' := by
  simp only [refreshTx] at h
  split at h
  · exact accounts_of_refused h
  · split at h
    · exact accounts_of_refused h
    · split at h
      · cases h
        exact .kept rfl rfl
      · split at h
        · exact accounts_of_refused h
        · split at h
          · split at h
            · cases h
              exact .kept rfl rfl
            · exact accounts_of_refused h
          · split at h
            · cases h
              exact .kept rfl rfl
            · cases h

theorem accounts_of_linkTx {providerId userId issuer subject : String}
    (h : linkTx st providerId userId issuer subject c = some (st', q)) : Accounts st st' := by
  simp only [linkTx] at h
  split at h
  · exact accounts_of_refused h
  · split at h
    · split at h
      · exact accounts_of_refused h
      · cases h
        exact .kept rfl rfl
    · split at h
      · exact accounts_of_refused h
      · split at h
        · exact accounts_of_refused h
        · split at h
          · cases h
          · next hfresh =>
            cases h
            exact .linked _ (by simpa using hfresh) rfl

/-- `unlinkIdentity` asks for another way to sign in. -/
theorem accounts_of_unlinkTx {providerId userId identityId issuer subject : String} {now : Time}
    (h : unlinkTx st providerId userId identityId issuer subject now = .ok st') : Accounts st st' := by
  simp only [unlinkTx] at h
  split at h
  · cases h
  · next identity hfind =>
    obtain ⟨⟨-, huser⟩, -⟩ :
        (identity.id = identityId ∧ identity.userId = userId) ∧ identity.providerId = providerId := by
      simpa using List.find?_some hfind
    subst huser
    split at h
    · cases h
    · split at h
      · cases h
      · next hway =>
        cases h
        refine .unlinked identity (List.mem_of_find?_eq_some hfind) ?_ rfl rfl
        rcases Nat.lt_or_ge 1 (st.identities.countP (·.userId == identity.userId)) with hmore | hone
        · exact Or.inr hmore
        · left
          cases huser : st.user identity.userId with
          | none => exact absurd ⟨by rw [huser]; rfl, hone⟩ hway
          | some user =>
            cases hlocal : user.hasLocalPassword with
            | true => exact hlocal
            | false => exact absurd ⟨by rw [huser, Option.all_some, hlocal]; rfl, hone⟩ hway

/-- Every statement but the deletion of a provider. -/
theorem accounts_of_stmt (hp : ∀ provider, p ≠ .removeDelete provider) (h : stmt env st i p c = some (st', q)) :
    Accounts st st' := by
  cases p with
  | removeDelete provider => exact absurd rfl (hp provider)
  | refreshTx payload tokenHash now context => exact accounts_of_refreshTx h
  | linkTx providerId userId issuer subject => exact accounts_of_linkTx h
  | unlinkTx providerId userId identityId issuer subject =>
    simp only [stmt] at h
    split at h
    · exact accounts_of_refused h
    · next hunlink =>
      cases h
      exact accounts_of_unlinkTx hunlink
  | changeTx userId passwordHash =>
    simp only [stmt] at h
    split at h
    · exact accounts_of_refused h
    · cases h
      exact .passwordSet userId passwordHash c.now rfl
  | resetTx reset now passwordHash =>
    simp only [stmt] at h
    split at h
    · exact accounts_of_refused h
    · split at h
      · exact accounts_of_refused h
      · cases h
        exact .passwordSet reset.userId passwordHash now rfl
  | _ =>
    -- the other statements write neither users nor identities
    simp only [stmt] at h
    repeat' split at h
    all_goals cases h <;> exact .kept rfl rfl

/-- The keys of users and identities; an id that an identity once had is not used again. -/
structure Keyed (st : Store) : Prop where
  users : (st.users.map User.id).Nodup
  identities : (st.identities.map ExternalIdentity.id).Nodup
  linked : ∀ identity ∈ st.identities, identity.id ∈ st.log.filterMap Event.identityId

theorem Keyed.user (hk : Keyed st) {user : User} (h : user ∈ st.users) : st.user user.id = some user := by
  have hfind := Rows.find?_key hk.users (a := user) (x := user.id)
  simpa [Store.user, beq_eq_decide] using hfind.mpr ⟨h, rfl⟩

/-- Another row that matches. -/
theorem exists_other {identity : ExternalIdentity} (hk : Keyed st) {userId : String}
    (h : 1 < st.identities.countP (·.userId == userId)) :
    ∃ row ∈ st.identities, row.userId = userId ∧ row.id ≠ identity.id := by
  by_contra hno
  push Not at hno
  have hone := Rows.countP_le_one (p := (·.userId == userId)) hk.identities fun a ha b hb hpa hpb =>
    (hno a ha (beq_iff_eq.mp hpa)).trans (hno b hb (beq_iff_eq.mp hpb)).symm
  omega

theorem Accounts.signsIn (h : Accounts st st') (hk : Keyed st) (hs : SignsIn st) : SignsIn st' := by
  cases h with
  | kept husers hidentities =>
    unfold SignsIn
    rw [husers, hidentities]
    exact hs
  | passwordSet userId passwordHash now hst =>
    subst hst
    intro user huser
    rcases Rows.of_mem_updateMany huser with ⟨hold, -⟩ | ⟨old, -, -, rfl⟩
    · exact hs user hold
    · exact Or.inl rfl
  | linked identity hfresh hst =>
    subst hst
    intro user huser
    refine (hs user huser).imp_right ?_
    rintro ⟨row, hrow, hown⟩
    exact ⟨row, List.mem_append_left _ hrow, hown⟩
  | unlinked identity hmem hway husers hidentities =>
    intro user huser
    rw [husers] at huser
    rw [hidentities]
    cases hlocal : user.hasLocalPassword with
    | true => exact Or.inl rfl
    | false =>
      right
      have hother : ∃ row ∈ st.identities, row.userId = user.id ∧ row.id ≠ identity.id := by
        by_cases hown : identity.userId = user.id
        · rw [hown, hk.user huser, Option.any_some, hlocal] at hway
          exact exists_other hk (hway.resolve_left Bool.false_ne_true)
        · obtain ⟨row, hrow, huserId⟩ := (hs user huser).resolve_left (by simp [hlocal])
          refine ⟨row, hrow, huserId, fun hid => hown ?_⟩
          rw [← Rows.eq_of_key hk.identities hrow hmem hid, huserId]
      obtain ⟨row, hrow, huserId, hid⟩ := hother
      exact ⟨row, Rows.mem_deleteMany.mpr ⟨hrow, by simpa using hid⟩, huserId⟩

theorem Accounts.keyed (h : Accounts st st') (hlog : st.log <:+ st'.log) (hk : Keyed st) : Keyed st' := by
  have hlinked : ∀ identity ∈ st.identities, identity.id ∈ st'.log.filterMap Event.identityId := fun identity hmem =>
    (hlog.filterMap Event.identityId).mem (hk.linked identity hmem)
  cases h with
  | kept husers hidentities =>
    constructor
    · rw [husers]
      exact hk.users
    · rw [hidentities]
      exact hk.identities
    · rw [hidentities]
      exact hlinked
  | passwordSet userId passwordHash now hst =>
    subst hst
    exact ⟨Rows.nodup_updateMany (fun _ _ => rfl) hk.users, hk.identities, hlinked⟩
  | linked identity hfresh hst =>
    subst hst
    refine ⟨hk.users, Rows.nodup_insert hk.identities fun row hrow hid => hfresh (hid ▸ hk.linked row hrow), ?_⟩
    intro row hrow
    rcases List.mem_append.mp hrow with hrow | hrow
    · exact hlinked row hrow
    · rw [List.mem_singleton.mp hrow]
      exact List.mem_cons_self
  | unlinked identity hmem hway husers hidentities =>
    constructor
    · rw [husers]
      exact hk.users
    · rw [hidentities]
      exact Rows.nodup_deleteMany hk.identities
    · rw [hidentities]
      exact fun row hrow => hlinked row (Rows.mem_deleteMany.mp hrow).1

/-! ## The deletion of a provider -/

/-- Nothing happens, or the identities at the provider go. -/
theorem removeDelete_cases {provider : IdentityProvider} (h : stmt env st i (.removeDelete provider) c = some (st', q)) :
    (st.provider provider.id).isNone = true ∧ st' = st ∨
      (st.provider provider.id).isNone = false ∧ st'.users = st.users ∧ st'.log = st.log ∧
        st'.identities = Rows.deleteMany (·.providerId == provider.id) st.identities := by
  simp only [stmt] at h
  split at h
  · next hgone =>
    cases h
    exact Or.inl ⟨hgone, rfl⟩
  · next hthere =>
    cases h
    exact Or.inr ⟨Bool.eq_false_iff.mpr hthere, rfl, rfl, rfl⟩

theorem Keyed.remove {providerId : String} (hk : Keyed st) (hlog : st'.log = st.log) (husers : st'.users = st.users)
    (hidentities : st'.identities = Rows.deleteMany (·.providerId == providerId) st.identities) : Keyed st' := by
  constructor
  · rw [husers]
    exact hk.users
  · rw [hidentities]
    exact Rows.nodup_deleteMany hk.identities
  · rw [hidentities, hlog]
    exact fun row hrow => hk.linked row (Rows.mem_deleteMany.mp hrow).1

/-- Who can still sign in when the identities at a provider are gone. -/
theorem signsIn_remove_iff {providerId : String} (husers : st'.users = st.users)
    (hidentities : st'.identities = Rows.deleteMany (·.providerId == providerId) st.identities) :
    SignsIn st' ↔ (st.users.all fun user =>
      user.hasLocalPassword || st.identities.any fun row => row.userId == user.id &&
        row.providerId != providerId) = true := by
  unfold SignsIn
  simp only [husers, hidentities, Rows.mem_deleteMany, List.all_eq_true, Bool.or_eq_true, List.any_eq_true,
    Bool.and_eq_true, beq_iff_eq, bne_iff_ne, beq_eq_false_iff_ne]
  refine forall₂_congr fun user _ => or_congr_right ?_
  constructor
  · rintro ⟨row, ⟨hrow, helsewhere⟩, hown⟩
    exact ⟨row, hrow, hown, helsewhere⟩
  · rintro ⟨row, hrow, hown, helsewhere⟩
    exact ⟨row, ⟨hrow, helsewhere⟩, hown⟩

/-! ## Every run -/

/-- The statements of provisioning: nothing, or a new user with a new identity. -/
theorem provision_cases {p' q' : SignInPoint} {c' : SignInChoice} (hp : ∀ p, p' ≠ .auth p)
    (h : signInStmt env toLowerCase st i p' c' = some (st', q')) :
    st' = st ∨ ∃ user identity, identity.userId = user.id ∧ (∀ row ∈ st.users, row.id ≠ user.id) ∧
      identity.id ∉ st.log.filterMap Event.identityId ∧
      st' = { st with
        users := st.users ++ [user], identities := st.identities ++ [identity], log := .linked identity :: st.log } := by
  have hrefused : ∀ {e : HttpError}, signInRefused st e = some (st', q') → st' = st := by
    intro e h
    cases h
    rfl
  cases p' with
  | auth p => exact absurd rfl (hp p)
  | provisionRole provider issuer profile =>
    simp only [signInStmt] at h
    split at h
    · exact Or.inl (hrefused h)
    · cases h
      exact Or.inl rfl
  | provisionTx providerId issuer profile passwordHash =>
    simp only [signInStmt, provisionTx] at h
    split at h
    · exact Or.inl (hrefused h)
    · split at h
      · exact Or.inl (hrefused h)
      · split at h
        · exact Or.inl (hrefused h)
        · split at h
          · exact Or.inl (hrefused h)
          · split at h
            · cases h
            · next hfresh =>
              cases h
              simp only [Bool.or_eq_true, List.any_eq_true, beq_iff_eq, List.contains_eq_mem, decide_eq_true_eq, not_or,
                not_exists, not_and] at hfresh
              exact Or.inr ⟨_, _, rfl, hfresh.1, hfresh.2, rfl⟩

theorem Keyed.provision {user : User} {identity : ExternalIdentity} (hk : Keyed st)
    (huser : ∀ row ∈ st.users, row.id ≠ user.id) (hidentity : identity.id ∉ st.log.filterMap Event.identityId) :
    Keyed { st with
      users := st.users ++ [user], identities := st.identities ++ [identity], log := .linked identity :: st.log } := by
  have hlinked := Accounts.keyed (.linked identity hidentity rfl) (List.suffix_cons _ _) hk
  exact ⟨Rows.nodup_insert hk.users huser, hlinked.identities, hlinked.linked⟩

theorem SignsIn.provision {user : User} {identity : ExternalIdentity} (hs : SignsIn st)
    (hown : identity.userId = user.id) :
    SignsIn { st with
      users := st.users ++ [user], identities := st.identities ++ [identity], log := .linked identity :: st.log } := by
  intro other hother
  rcases List.mem_append.mp hother with hold | hnew
  · refine (hs other hold).imp_right ?_
    rintro ⟨row, hrow, hrowOwn⟩
    exact ⟨row, List.mem_append_left _ hrow, hrowOwn⟩
  · obtain rfl := List.mem_singleton.mp hnew
    exact Or.inr ⟨identity, List.mem_append_right _ (List.mem_singleton_self _), hown⟩

theorem provision_kept {p' q' : SignInPoint} {c' : SignInChoice} (hs : SignsIn st) (hk : Keyed st)
    (hp : ∀ p, p' ≠ .auth p) (h : signInStmt env toLowerCase st i p' c' = some (st', q')) : SignsIn st' ∧ Keyed st' := by
  rcases provision_cases hp h with rfl | ⟨user, identity, hown, huser, hidentity, rfl⟩
  · exact ⟨hs, hk⟩
  · exact ⟨hs.provision hown, hk.provision huser hidentity⟩

/-- **One step.** The condition says whether everyone can sign in after it. -/
theorem signIn_step {s t : SignInSys} {l : SignInLabel} (hs : SignsIn s.store) (hk : Keyed s.store)
    (h : signInStep env toLowerCase s l = some t) : (removalKeepsWay s l = true ↔ SignsIn t.store) ∧ Keyed t.store := by
  cases l with
  | start r =>
    rw [Interleave.step_start h]
    exact ⟨iff_of_true rfl hs, hk⟩
  | exec i c =>
    obtain ⟨p, st, q, hp, hq, rfl⟩ := Interleave.step_exec h
    simp only [removalKeepsWay, hp]
    cases p with
    | auth p =>
      obtain ⟨⟨st, q⟩, hstmt, heq⟩ := Option.map_eq_some_iff.mp hq
      cases heq
      by_cases hremove : ∃ provider, p = .removeDelete provider
      · obtain ⟨provider, rfl⟩ := hremove
        rcases removeDelete_cases hstmt with ⟨hgone, rfl⟩ | ⟨hthere, husers, hlog, hidentities⟩
        · exact ⟨iff_of_true (by simp [hgone]) hs, hk⟩
        · refine ⟨?_, hk.remove hlog husers hidentities⟩
          rw [signsIn_remove_iff husers hidentities]
          simp [hthere]
      · have haccounts := accounts_of_stmt (fun provider he => hremove ⟨provider, he⟩) hstmt
        refine ⟨iff_of_true ?_ (haccounts.signsIn hk hs), haccounts.keyed (log_suffix (exec_of_stmt hstmt)) hk⟩
        split
        · next he => cases he; exact absurd ⟨_, rfl⟩ hremove
        · rfl
    | provisionRole provider issuer profile =>
      obtain ⟨hs', hk'⟩ := provision_kept hs hk (fun _ he => by cases he) hq
      exact ⟨iff_of_true rfl hs', hk'⟩
    | provisionTx providerId issuer profile passwordHash =>
      obtain ⟨hs', hk'⟩ := provision_kept hs hk (fun _ he => by cases he) hq
      exact ⟨iff_of_true rfl hs', hk'⟩

theorem keyed_init {setup : Setup} (husers : (setup.users.map User.id).Nodup) : Keyed (init setup).store where
  users := husers
  identities := setup.identityIds
  linked identity hmem := List.mem_filterMap.mpr ⟨.linked identity, List.mem_map.mpr ⟨identity, hmem, rfl⟩, rfl⟩

/-- **Everyone can sign in throughout a run exactly if every deletion of a provider leaves everyone a way.** -/
theorem signIn_kept_iff {setup : Setup} {ls : List SignInLabel} {t : SignInSys} (husers : (setup.users.map User.id).Nodup)
    (hs : SignsIn (init setup).store) (hr : Runs.run (signInStep env toLowerCase) (signInInit setup) ls = some t) :
    Runs.Throughout (signInStep env toLowerCase) (fun s => SignsIn s.store) (signInInit setup) ls ↔
      Runs.Along (signInStep env toLowerCase) (fun s l => removalKeepsWay s l = true) (signInInit setup) ls :=
  Runs.throughout_iff_along_inv (I := fun s => SignsIn s.store) (K := fun s => Keyed s.store)
    (fun _ _ _ hs hk h => signIn_step hs hk h) hs (keyed_init husers) hr

/-! ## One account -/

namespace Demo

def twoProviders : Setup :=
  ⟨[], "true", [⟨"first", "First", true, 480⟩, ⟨"second", "Second", true, 480⟩], [], List.nodup_nil⟩

def choose (id : String) : SignInChoice := ⟨⟨1, id, "password", true⟩, "user"⟩

/-- The first login, which creates the account. -/
def firstLogin : List SignInLabel :=
  [.start (.provisionIdentity ⟨"first", some "reader"⟩ "https://idp" ⟨"subject", "user@wiki"⟩), .exec 0 (choose ""),
    .exec 0 (choose "identity")]

def linkSecond : List SignInLabel :=
  [.start (.auth (.linkIdentity "second" "user" "https://second" "subject")), .exec 1 (choose "other")]

/-- The deletion of the first provider by call `i`. -/
def removeFirst (i : Nat) : List SignInLabel :=
  [.start (.auth (.removeProvider "first" false)), .exec i (choose ""), .exec i (choose ""), .exec i (choose "")]

/-- Some user has neither a password nor an identity. -/
def lockedOut (s : SignInSys) : Bool :=
  s.store.users.any fun user => !user.hasLocalPassword && s.store.identities.all fun row => row.userId != user.id

end Demo

theorem signsIn_twoProviders : SignsIn (init Demo.twoProviders).store := fun _ h => nomatch h

/-- With a second identity the first provider may go. -/
theorem signIn_kept_second : Runs.Throughout (signInStep Demo.plainEnv id) (fun s => SignsIn s.store)
    (signInInit Demo.twoProviders) (Demo.firstLogin ++ Demo.linkSecond ++ Demo.removeFirst 2) := by
  have hrun : (Runs.run (signInStep Demo.plainEnv id) (signInInit Demo.twoProviders)
      (Demo.firstLogin ++ Demo.linkSecond ++ Demo.removeFirst 2)).isSome := by
    decide +kernel
  obtain ⟨t, ht⟩ := Option.isSome_iff_exists.mp hrun
  have husers : (Demo.twoProviders.users.map User.id).Nodup := List.nodup_nil
  exact (signIn_kept_iff husers signsIn_twoProviders ht).mpr (by decide +kernel)

/-- The account that the first login has created is left without a way to sign in. -/
theorem locked_out_by_removal : ∃ t, Runs.run (signInStep Demo.plainEnv id) (signInInit Demo.twoProviders)
    (Demo.firstLogin ++ Demo.removeFirst 1) = some t ∧ SignsIn (init Demo.twoProviders).store ∧ ¬ SignsIn t.store := by
  have hrun : (Runs.run (signInStep Demo.plainEnv id) (signInInit Demo.twoProviders)
      (Demo.firstLogin ++ Demo.removeFirst 1)).any Demo.lockedOut := by
    decide +kernel
  obtain ⟨t, ht, hlocked⟩ := (Option.any_eq_true _ _).mp hrun
  refine ⟨t, ht, signsIn_twoProviders, fun hs => ?_⟩
  obtain ⟨user, huser, hnone⟩ := List.any_eq_true.mp hlocked
  simp only [Bool.and_eq_true, Bool.not_eq_true', List.all_eq_true, bne_iff_ne] at hnone
  rcases hs user huser with hlocal | ⟨row, hrow, hown⟩
  · rw [hnone.1] at hlocal
    cases hlocal
  · exact hnone.2 row hrow hown

end AdWiki.Auth
