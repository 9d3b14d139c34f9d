import AdWiki.Standards.Approval

/-!
# The versions of a standard

Sequences of calls on all standards, one call after the other. The row of a version in `standard_versions` is written
once and has the texts that the standard has as long as it is at that version.

* `accepted_develops`: what one statement does to a standard and its versions.
* `history_faithful_iff`: the history is faithful, and no deprecated standard changes, in every sequence in which no rule
  of a deprecated standard is changed.
* `rule_added_to_deprecated`: such a change goes through.
-/

namespace AdWiki.Standards

def Entry.id (st : Entry) : String := st.standard.id

abbrev Entries := Table Entry.id

/-! ## Calls in turn -/

/-- The outside choices of `create`; `ruleId` are the ids of its rules. -/
structure CreateChoice where
  refused : Option HttpError
  id : String
  slug : String
  spaceId : String
  ruleId : Nat → String
  now : Time

def createRules (input : CreateStandardInput) (c : CreateChoice) : List StandardRule :=
  input.rules.zipIdx.map fun r => ⟨c.ruleId r.2, ruleCreateData r.1, c.now, c.now⟩

/-- The row that `create` writes. -/
def createStandard (input : CreateStandardInput) (userId : String) (c : CreateChoice) : Standard where
  id := c.id
  spaceId := c.spaceId
  title := input.title
  slug := c.slug
  description := input.description
  justification := input.justification
  status := .draft
  priority := input.priority.getD .medium
  version := 1
  mcpVisible := false
  validFrom := input.validFrom
  validUntil := input.validUntil
  createdById := userId
  responsibleId := input.responsibleId
  categoryId := input.categoryId

/-- The standard with its rules and page links, in one statement. -/
def create (input : CreateStandardInput) (userId : String) (c : CreateChoice) : Except HttpError Entry :=
  let noRules : Table StandardRule.id := ⟨[], List.nodup_nil⟩
  let noPages : Table (id : String → String) := ⟨[], List.nodup_nil⟩
  match c.refused, noRules.createMany (createRules input c), noPages.createMany input.pageIds with
  | some e, _, _ => .error e
  | none, some rules, some pages => .ok ⟨createStandard input userId c, rules, ⟨[], List.nodup_nil⟩, pages, none⟩
  | none, _, _ => .error .uniqueConstraint

inductive Op
  | create (input : CreateStandardInput) (userId : String) (c : CreateChoice)
  | call (id : String) (r : Call) (cs : List Choice)

/-- One call, from its first statement to its last. A call that fails leaves what its statements have written. -/
def perform (db : Entries) : Op → Option Entries
  | .create input userId c =>
    match create input userId c with
    | .error _ => some db
    | .ok st => some ((db.createMany [st]).getD db)
  | .call id r cs =>
    match db.find id with
    | none => some db
    | some st => (Interleave.alone stmt Point.ended st (entry r) cs).map fun q => db.put q.1

def noStandards : Entries := ⟨[], List.nodup_nil⟩

/-! ## What a faithful history is -/

structure HistoryFaithful (ops : List Op) : Prop where
  /-- Every version before the current one has one row. -/
  rows : ∀ pre post db, ops = pre ++ post → Runs.run perform noStandards pre = some db → ∀ st ∈ db, ∀ n, 1 ≤ n →
    n < st.standard.version → ∃! row, row ∈ st.versions ∧ row.version = n
  /-- It has the texts that the standard had whenever it was at that version. -/
  texts : ∀ pre mid post db db', ops = pre ++ mid ++ post → Runs.run perform noStandards pre = some db →
    Runs.run perform db mid = some db' → ∀ st ∈ db, ∀ st' ∈ db', st'.id = st.id →
    st.standard.version < st'.standard.version →
    ∃ row ∈ st'.versions, row.version = st.standard.version ∧ row.snapshot.content = (full st).content
  /-- A deprecated standard keeps its texts and rules. -/
  frozen : ∀ pre op post db db', ops = pre ++ op :: post → Runs.run perform noStandards pre = some db →
    perform db op = some db' → ∀ st ∈ db, ∀ st' ∈ db', st'.id = st.id → st.standard.status = .deprecated →
    (full st').content = (full st).content

/-- The choices of statement `n` of a call, if no statement up to it is refused. -/
def reached : Nat → List Choice → Option Choice
  | _, [] => none
  | 0, c :: _ => if c.refused.isNone then some c else none
  | n + 1, c :: cs => if c.refused.isNone then reached n cs else none

/-- The choices of the transaction of a rule change: an update or a delete looks for the rule before. -/
def transactionChoice (write : RuleWrite) (cs : List Choice) : Option Choice :=
  reached (if write.ruleId.isSome then 3 else 2) cs

/-- The call changes no rule of a deprecated standard. -/
def keepsDeprecated (db : Entries) : Op → Bool
  | .call id (.ruleEdit write _) cs =>
    match db.find id, transactionChoice write cs with
    | some st, some c =>
      st.standard.status != .deprecated ||
        match write.apply c.id c.now st.rules with
        | .ok rules => (full { st with rules := rules }).content == (full st).content
        | .error _ => true
    | _, _ => true
  | _ => true

variable {st st' : Entry} {p q : Point} {c : Choice} {cs : List Choice} {db db' : Entries} {op : Op} {ops : List Op}

/-! ## One statement -/

/-- The rows of the versions, and the texts of the current one. -/
structure Recorded (st : Entry) : Prop where
  positive : 1 ≤ st.standard.version
  rows : ∀ n, 1 ≤ n → n < st.standard.version → ∃ row ∈ st.versions, row.version = n
  below : ∀ row ∈ st.versions, row.version ≤ st.standard.version
  current : ∀ row ∈ st.versions, row.version = st.standard.version → row.snapshot.content = (full st).content

/-- How a standard develops: rows of versions stay, and while its version stays, its texts do. -/
structure Develops (st st' : Entry) : Prop where
  id : st'.id = st.id
  version : st.standard.version ≤ st'.standard.version
  same : st'.standard.version = st.standard.version → (full st').content = (full st).content
  recorded : st.standard.version < st'.standard.version →
    ∃ row ∈ st'.versions, row.version = st.standard.version ∧ row.snapshot.content = (full st).content
  kept : ∀ row ∈ st.versions, row ∈ st'.versions

theorem Develops.refl (st : Entry) : Develops st st :=
  ⟨rfl, le_refl _, fun _ => rfl, fun h => absurd h (lt_irrefl _), fun _ h => h⟩

theorem Develops.trans {st'' : Entry} (h : Develops st st') (h' : Develops st' st'') : Develops st st'' := by
  refine ⟨h'.id.trans h.id, h.version.trans h'.version, fun hv => ?_, fun hv => ?_,
    fun row hrow => h'.kept row (h.kept row hrow)⟩
  · have hle := h.version
    have hle' := h'.version
    exact (h'.same (by omega)).trans (h.same (by omega))
  · rcases h.version.lt_or_eq with hlt | heq
    · obtain ⟨row, hrow, hfields⟩ := h.recorded hlt
      exact ⟨row, h'.kept row hrow, hfields⟩
    · obtain ⟨row, hrow, hversion, hcontent⟩ := h'.recorded (heq ▸ hv)
      exact ⟨row, hrow, hversion.trans heq.symm, hcontent.trans (h.same heq.symm)⟩

/-- What a call that runs alone has read is still there, and from its snapshot on the current version has a row. -/
def Reads (st : Entry) : Point → Prop
  | .updateCheck existing _ _ => existing = full st
  | .updateSnapshot existing _ _ _ => existing = full st
  | .ensureRule standard _ _ => standard = full st
  | .ruleSnapshot standard _ _ => standard = full st
  | .updateWrite _ _ _ => ∃ row ∈ st.versions, row.version = st.standard.version
  | .ruleWrite _ _ => ∃ row ∈ st.versions, row.version = st.standard.version
  | _ => True

/-- After `snapshot` the version of the standard has a row, and no other version has a new one. -/
theorem mem_snapshot {standard : FullStandard} {userId : String} {versions : Table StandardVersion.version}
    {row : StandardVersion} (h : row ∈ snapshot standard userId versions) :
    row ∈ versions ∨ row.version = standard.standard.version ∧ row.snapshot.content = standard.content := by
  unfold snapshot at h
  cases hnew : versions.createMany [snapshotRow standard userId] with
  | none =>
    rw [hnew] at h
    exact Or.inl h
  | some versions' =>
    rw [hnew] at h
    rcases (Table.mem_createMany hnew).mp h with hold | hrow
    · exact Or.inl hold
    · obtain rfl := List.mem_singleton.mp hrow
      exact Or.inr ⟨rfl, rfl⟩

theorem subset_snapshot {standard : FullStandard} {userId : String} {versions : Table StandardVersion.version}
    {row : StandardVersion} (h : row ∈ versions) : row ∈ snapshot standard userId versions := by
  unfold snapshot
  cases hnew : versions.createMany [snapshotRow standard userId] with
  | none => exact h
  | some versions' => exact (Table.mem_createMany hnew).mpr (Or.inl h)

theorem exists_snapshot {standard : FullStandard} {userId : String} {versions : Table StandardVersion.version} :
    ∃ row ∈ snapshot standard userId versions, row.version = standard.standard.version := by
  unfold snapshot
  cases hnew : versions.createMany [snapshotRow standard userId] with
  | none =>
    by_contra hno
    have hfresh : ∀ row ∈ versions, ∀ row' ∈ [snapshotRow standard userId], row.version ≠ row'.version := by
      intro row hrow row' hrow' heq
      obtain rfl := List.mem_singleton.mp hrow'
      exact hno ⟨row, hrow, heq⟩
    obtain ⟨versions', hsome⟩ := Table.createMany_isSome (by simp) hfresh
    rw [hsome] at hnew
    cases hnew
  | some versions' =>
    exact ⟨_, (Table.mem_createMany hnew).mpr (Or.inr (List.mem_singleton_self _)), rfl⟩

/-- A statement that leaves texts, version and versions. -/
theorem Recorded.same (h : Recorded st) (hid : st'.id = st.id) (hversion : st'.standard.version = st.standard.version)
    (hcontent : (full st').content = (full st).content) (hversions : st'.versions = st.versions) :
    Develops st st' ∧ Recorded st' := by
  refine ⟨⟨hid, hversion.ge, fun _ => hcontent, fun hlt => by omega, fun row hrow => hversions ▸ hrow⟩, ?_⟩
  constructor
  · rw [hversion]
    exact h.positive
  · rw [hversion, hversions]
    exact h.rows
  · rw [hversion, hversions]
    exact h.below
  · rw [hversion, hversions, hcontent]
    exact h.current

/-- The statement of `snapshot`. -/
theorem Recorded.snapshot {userId : String} (h : Recorded st) :
    Develops st { st with versions := snapshot (full st) userId st.versions } ∧
      Recorded { st with versions := snapshot (full st) userId st.versions } := by
  refine ⟨⟨rfl, le_refl _, fun _ => rfl, fun hlt => absurd hlt (lt_irrefl _), fun row hrow => subset_snapshot hrow⟩,
    h.positive, ?_, ?_, ?_⟩
  · intro n hn hlt
    obtain ⟨row, hrow, hversion⟩ := h.rows n hn hlt
    exact ⟨row, subset_snapshot hrow, hversion⟩
  · intro row hrow
    rcases mem_snapshot hrow with hold | ⟨hversion, -⟩
    · exact h.below row hold
    · exact hversion.le
  · intro row hrow hversion
    rcases mem_snapshot hrow with hold | ⟨-, hcontent⟩
    · exact h.current row hold hversion
    · exact hcontent

/-- A write of the next version, after the snapshot of the current one. -/
theorem Recorded.bump (h : Recorded st) (hid : st'.id = st.id) (hversion : st'.standard.version = st.standard.version + 1)
    (hversions : st'.versions = st.versions) (hrow : ∃ row ∈ st.versions, row.version = st.standard.version) :
    Develops st st' ∧ Recorded st' := by
  obtain ⟨row, hmem, hnumber⟩ := hrow
  refine ⟨⟨hid, by omega, fun hsame => by omega, fun _ => ⟨row, hversions ▸ hmem, hnumber, h.current row hmem hnumber⟩,
    fun row hrow => hversions ▸ hrow⟩, by omega, ?_, ?_, ?_⟩
  · rw [hversion, hversions]
    intro n hn hlt
    rcases (Nat.lt_succ_iff.mp hlt).lt_or_eq with hlt | rfl
    · exact h.rows n hn hlt
    · exact ⟨row, hmem, hnumber⟩
  · rw [hversion, hversions]
    exact fun row' hrow' => (h.below row' hrow').trans (Nat.le_succ _)
  · rw [hversion, hversions]
    intro row' hrow' hnew
    have := h.below row' hrow'
    omega

/-- **One statement of a call that runs alone.** -/
theorem accepted_develops (hst : Recorded st) (hreads : Reads st p) (h : accepted st p c = some (st', q)) :
    (Develops st st' ∧ Recorded st') ∧ Reads st' q := by
  have hstay : Develops st st ∧ Recorded st := ⟨.refl st, hst⟩
  have hfail : ∀ {e : HttpError}, fail st e = some (st', q) → (Develops st st' ∧ Recorded st') ∧ Reads st' q := by
    intro e h
    cases h
    exact ⟨hstay, trivial⟩
  cases p with
  | updateRead input userId =>
    simp only [accepted] at h
    split at h
    · exact hfail h
    · split at h
      · exact hfail h
      · split at h
        · cases h
          exact ⟨hstay, trivial⟩
        · cases h
          exact ⟨hstay, rfl⟩
  | mcpWrite existing mcpVisible =>
    cases h
    exact ⟨hst.same rfl rfl rfl rfl, trivial⟩
  | updateCheck existing input userId =>
    cases h
    exact ⟨hstay, hreads⟩
  | updateSnapshot existing input userId spaceId =>
    obtain rfl : existing = full st := hreads
    cases h
    exact ⟨hst.snapshot, exists_snapshot⟩
  | updateWrite existing input spaceId =>
    simp only [accepted, writeStandard, Option.some.injEq, Prod.mk.injEq] at h
    obtain ⟨rfl, rfl⟩ := h
    exact ⟨hst.bump Standard.write_id Standard.write_version rfl hreads, trivial⟩
  | submitRead =>
    cases h
    exact ⟨hstay, trivial⟩
  | submitWrite =>
    cases h
    exact ⟨hst.same rfl rfl rfl rfl, trivial⟩
  | approveRead =>
    simp only [accepted] at h
    split at h
    · exact hfail h
    · cases h
      exact ⟨hstay, trivial⟩
  | approveWrite current =>
    cases h
    exact ⟨hst.same rfl rfl rfl rfl, trivial⟩
  | deprecateRead =>
    cases h
    exact ⟨hstay, trivial⟩
  | deprecateWrite =>
    cases h
    exact ⟨hst.same rfl rfl rfl rfl, trivial⟩
  | ruleRead write userId =>
    simp only [accepted] at h
    split at h
    · cases h
      exact ⟨hstay, rfl⟩
    · cases h
      exact ⟨hstay, rfl⟩
  | ensureRule standard write userId =>
    simp only [accepted] at h
    split at h
    · cases h
      exact ⟨hstay, hreads⟩
    · exact hfail h
  | ruleSnapshot standard write userId =>
    obtain rfl : standard = full st := hreads
    cases h
    exact ⟨hst.snapshot, exists_snapshot⟩
  | ruleWrite standard write =>
    simp only [accepted] at h
    split at h
    · exact hfail h
    · cases h
      exact ⟨hst.bump Standard.ruleChanged_id Standard.ruleChanged_version rfl hreads, trivial⟩
  | linkRead pageId =>
    cases h
    exact ⟨hstay, trivial⟩
  | linkWrite pageId =>
    cases h
    exact ⟨hst.same rfl rfl rfl rfl, trivial⟩
  | unlinkWrite pageId =>
    cases h
    exact ⟨hst.same rfl rfl rfl rfl, trivial⟩
  | findOne =>
    cases h
    exact ⟨hstay, trivial⟩
  | done result => cases h

/-- A whole call. -/
theorem call_develops {r : Call} (hst : Recorded st)
    (h : Interleave.alone stmt Point.ended st (entry r) cs = some (st', q)) : Develops st st' ∧ Recorded st' := by
  have hentry : Reads st (entry r) := by cases r <;> trivial
  refine (Interleave.alone_inv (K := fun u p => (Develops st u ∧ Recorded u) ∧ Reads u p) ?_
    ⟨⟨.refl st, hst⟩, hentry⟩ h).1
  rintro u p c v q ⟨⟨hdev, hrec⟩, hreads⟩ hstmt
  rcases stmt_cases hstmt with ⟨e, -, rfl, rfl⟩ | ⟨-, haccepted⟩
  · exact ⟨⟨hdev, hrec⟩, trivial⟩
  · obtain ⟨⟨hdev', hrec'⟩, hreads'⟩ := accepted_develops hrec hreads haccepted
    exact ⟨⟨hdev.trans hdev', hrec'⟩, hreads'⟩

/-! ## Deprecated standards -/

/-- Statements after which a call changes no text and no rule. -/
def Point.quiet : Point → Bool
  | .updateRead _ _ => false
  | .updateCheck _ _ _ => false
  | .updateSnapshot _ _ _ _ => false
  | .updateWrite _ _ _ => false
  | .ruleRead _ _ => false
  | .ensureRule _ _ _ => false
  | .ruleSnapshot _ _ _ => false
  | .ruleWrite _ _ => false
  | _ => true

theorem accepted_quiet (hp : p.quiet = true) (h : accepted st p c = some (st', q)) :
    (full st').content = (full st).content ∧ q.quiet = true := by
  cases p with
  | approveRead =>
    simp only [accepted] at h
    split at h
    · cases h
      exact ⟨rfl, rfl⟩
    · cases h
      exact ⟨rfl, rfl⟩
  | updateRead input userId => cases hp
  | updateCheck existing input userId => cases hp
  | updateSnapshot existing input userId spaceId => cases hp
  | updateWrite existing input spaceId => cases hp
  | ruleRead write userId => cases hp
  | ensureRule standard write userId => cases hp
  | ruleSnapshot standard write userId => cases hp
  | ruleWrite standard write => cases hp
  | done result => cases h
  | _ =>
    cases h
    exact ⟨rfl, rfl⟩

theorem alone_quiet (hp : p.quiet = true) (h : Interleave.alone stmt Point.ended st p cs = some (st', q)) :
    (full st').content = (full st).content := by
  refine (Interleave.alone_inv (K := fun u p => (full u).content = (full st).content ∧ p.quiet = true) ?_ ⟨rfl, hp⟩ h).1
  rintro u p c v q ⟨hcontent, hquiet⟩ hstmt
  rcases stmt_cases hstmt with ⟨e, -, rfl, rfl⟩ | ⟨-, haccepted⟩
  · exact ⟨hcontent, rfl⟩
  · obtain ⟨hsame, hq⟩ := accepted_quiet hquiet haccepted
    exact ⟨hsame.trans hcontent, hq⟩

/-- If statement `n` of the rest of the call is the transaction, it leaves the rules as they are. -/
def LeavesRules (st : Entry) (write : RuleWrite) (n : Nat) (cs : List Choice) : Prop :=
  ∀ c rules, reached n cs = some c → write.apply c.id c.now st.rules = .ok rules →
    (full { st with rules := rules }).content = (full st).content

variable {standard : FullStandard} {write : RuleWrite} {userId : String} {n : Nat}

theorem leavesRules_refused {e : HttpError} (h : c.refused = some e) : LeavesRules st write n (c :: cs) := by
  intro c' rules hreached
  cases n <;> simp [reached, h] at hreached

theorem leavesRules_next (h : c.refused = none) : LeavesRules st write (n + 1) (c :: cs) ↔ LeavesRules st write n cs := by
  simp [LeavesRules, reached, h]

theorem ruleWrite_leaves (h : Interleave.alone stmt Point.ended st (.ruleWrite standard write) cs = some (st', q)) :
    (full st').content = (full st).content ↔ LeavesRules st write 0 cs := by
  cases cs with
  | nil => simp [Interleave.alone, Point.ended] at h
  | cons c cs =>
    obtain ⟨st₁, p₁, hstmt, hrest⟩ := Interleave.alone_cons.mp h
    rcases stmt_cases hstmt with ⟨e, hrefused, rfl, rfl⟩ | ⟨hfree, haccepted⟩
    · exact ⟨fun _ => leavesRules_refused hrefused, fun _ => alone_quiet rfl hrest⟩
    · simp only [accepted] at haccepted
      split at haccepted
      · next e herror =>
        cases haccepted
        refine ⟨fun _ c' rules hreached hok => ?_, fun _ => alone_quiet rfl hrest⟩
        obtain rfl : c = c' := by simpa [reached, hfree] using hreached
        rw [herror] at hok
        cases hok
      · next rules hrules =>
        cases haccepted
        have htexts : (full st').content = (full { st with rules := rules }).content := by
          rw [alone_quiet rfl hrest]
          unfold Standard.ruleChanged Standard.reviewIf
          split <;> rfl
        rw [htexts]
        constructor
        · intro hsame c' rules' hreached hok
          obtain rfl : c = c' := by simpa [reached, hfree] using hreached
          rw [hrules] at hok
          cases hok
          exact hsame
        · exact fun hleaves => hleaves c rules (by simp [reached, hfree]) hrules

theorem ruleSnapshot_leaves
    (h : Interleave.alone stmt Point.ended st (.ruleSnapshot standard write userId) cs = some (st', q)) :
    (full st').content = (full st).content ↔ LeavesRules st write 1 cs := by
  cases cs with
  | nil => simp [Interleave.alone, Point.ended] at h
  | cons c cs =>
    obtain ⟨st₁, p₁, hstmt, hrest⟩ := Interleave.alone_cons.mp h
    rcases stmt_cases hstmt with ⟨e, hrefused, rfl, rfl⟩ | ⟨hfree, haccepted⟩
    · exact ⟨fun _ => leavesRules_refused hrefused, fun _ => alone_quiet rfl hrest⟩
    · cases haccepted
      rw [leavesRules_next hfree]
      -- the snapshot leaves the standard and its rules, which is all that both sides are about
      have hleaves := ruleWrite_leaves hrest
      exact hleaves

/-- Where the rule is not found, the transaction would fail. -/
theorem apply_of_missing {id : String} {now : Time} {rules rules' : Table StandardRule.id}
    (h : (write.ruleId.all fun ruleId => (rules.find ruleId).isSome) = false) :
    write.apply id now rules ≠ .ok rules' := by
  cases write with
  | create input => cases h
  | update ruleId input =>
    have hnone : (rules.find ruleId).isSome = false := h
    simp [RuleWrite.apply, hnone]
  | delete ruleId =>
    have hnone : (rules.find ruleId).isSome = false := h
    simp [RuleWrite.apply, hnone]

theorem ensureRule_leaves
    (h : Interleave.alone stmt Point.ended st (.ensureRule standard write userId) cs = some (st', q)) :
    (full st').content = (full st).content ↔ LeavesRules st write 2 cs := by
  cases cs with
  | nil => simp [Interleave.alone, Point.ended] at h
  | cons c cs =>
    obtain ⟨st₁, p₁, hstmt, hrest⟩ := Interleave.alone_cons.mp h
    rcases stmt_cases hstmt with ⟨e, hrefused, rfl, rfl⟩ | ⟨hfree, haccepted⟩
    · exact ⟨fun _ => leavesRules_refused hrefused, fun _ => alone_quiet rfl hrest⟩
    · simp only [accepted] at haccepted
      split at haccepted
      · cases haccepted
        rw [leavesRules_next hfree]
        exact ruleSnapshot_leaves hrest
      · next hmissing =>
        cases haccepted
        exact ⟨fun _ c' rules _ hok => absurd hok (apply_of_missing (Bool.eq_false_iff.mpr hmissing)),
          fun _ => alone_quiet rfl hrest⟩

/-- A change of the rules leaves them if and only if its transaction does. -/
theorem ruleRead_leaves (h : Interleave.alone stmt Point.ended st (.ruleRead write userId) cs = some (st', q)) :
    (full st').content = (full st).content ↔ LeavesRules st write (if write.ruleId.isSome then 3 else 2) cs := by
  cases cs with
  | nil => simp [Interleave.alone, Point.ended] at h
  | cons c cs =>
    obtain ⟨st₁, p₁, hstmt, hrest⟩ := Interleave.alone_cons.mp h
    rcases stmt_cases hstmt with ⟨e, hrefused, rfl, rfl⟩ | ⟨hfree, haccepted⟩
    · exact ⟨fun _ => leavesRules_refused hrefused, fun _ => alone_quiet rfl hrest⟩
    · simp only [accepted] at haccepted
      split at haccepted
      · next hid =>
        cases haccepted
        rw [hid]
        exact (ruleSnapshot_leaves hrest).trans (leavesRules_next hfree).symm
      · next ruleId hid =>
        cases haccepted
        rw [hid]
        exact (ensureRule_leaves hrest).trans (leavesRules_next hfree).symm

/-- A call on a deprecated standard changes it only by a change of its rules. -/
theorem call_deprecated {r : Call} (hdeprecated : st.standard.status = .deprecated)
    (h : Interleave.alone stmt Point.ended st (entry r) cs = some (st', q)) :
    (full st').content = (full st).content ↔
      match r with
      | .ruleEdit write _ => LeavesRules st write (if write.ruleId.isSome then 3 else 2) cs
      | _ => True := by
  cases r with
  | ruleEdit write userId => exact ruleRead_leaves h
  | update input userId =>
    refine iff_of_true ?_ trivial
    cases cs with
    | nil => simp [Interleave.alone, Point.ended, entry] at h
    | cons c cs =>
      obtain ⟨st₁, p₁, hstmt, hrest⟩ := Interleave.alone_cons.mp h
      rcases stmt_cases hstmt with ⟨e, -, rfl, rfl⟩ | ⟨-, haccepted⟩
      · exact alone_quiet rfl hrest
      · simp only [entry, accepted, full, hdeprecated, if_true] at haccepted
        cases haccepted
        exact alone_quiet rfl hrest
  | _ => exact iff_of_true (alone_quiet rfl h) trivial

/-! ## Sequences of calls -/

theorem create_recorded {input : CreateStandardInput} {userId : String} {c : CreateChoice}
    (h : create input userId c = .ok st) : Recorded st := by
  simp only [create] at h
  split at h
  · cases h
  · cases h
    have hnone : ∀ row : StandardVersion, row ∉ (⟨[], List.nodup_nil⟩ : Table StandardVersion.version) :=
      fun row hrow => by cases hrow
    refine ⟨le_refl _, fun n hn hlt => ?_, fun row hrow => absurd hrow (hnone row),
      fun row hrow => absurd hrow (hnone row)⟩
    have hone : n < 1 := hlt
    omega
  · cases h

/-- What one call does to the standards: a new one begins with version 1, and one of the old ones develops. -/
theorem perform_develops (hdb : ∀ st ∈ db, Recorded st) (h : perform db op = some db') :
    (∀ st ∈ db', Recorded st) ∧ ∀ st ∈ db, ∃ st' ∈ db', Develops st st' := by
  have hsame : (∀ st ∈ db, Recorded st) ∧ ∀ st ∈ db, ∃ st' ∈ db, Develops st st' :=
    ⟨hdb, fun st hst => ⟨st, hst, .refl st⟩⟩
  cases op with
  | create input userId c =>
    simp only [perform] at h
    split at h
    · cases h
      exact hsame
    · next st hcreate =>
      cases hnew : db.createMany [st] with
      | none =>
        rw [hnew] at h
        cases h
        exact hsame
      | some db'' =>
        rw [hnew] at h
        cases h
        refine ⟨fun st' hst' => ?_, fun st' hst' => ⟨st', (Table.mem_createMany hnew).mpr (Or.inl hst'), .refl st'⟩⟩
        rcases (Table.mem_createMany hnew).mp hst' with hold | hst'
        · exact hdb st' hold
        · obtain rfl := List.mem_singleton.mp hst'
          exact create_recorded hcreate
  | call id r cs =>
    simp only [perform] at h
    split at h
    · cases h
      exact hsame
    · next st hfind =>
      obtain ⟨hst, rfl⟩ := Table.find_eq_some.mp hfind
      obtain ⟨⟨st', q⟩, halone, rfl⟩ := Option.map_eq_some_iff.mp h
      obtain ⟨hdev, hrec⟩ := call_develops (hdb st hst) halone
      constructor
      · intro u hu
        rcases Table.mem_put.mp hu with ⟨-, -, -, rfl⟩ | ⟨hu, -⟩
        · exact hrec
        · exact hdb u hu
      · intro u hu
        by_cases hkey : u.id = st'.id
        · obtain rfl : u = st := Rows.eq_of_key db.unique hu hst (hkey.trans hdev.id)
          exact ⟨st', Table.mem_put.mpr (Or.inl ⟨u, hu, hkey, rfl⟩), hdev⟩
        · exact ⟨u, Table.mem_put.mpr (Or.inr ⟨hu, hkey⟩), .refl u⟩

theorem develops_run (hdb : ∀ st ∈ db, Recorded st) (h : Runs.run perform db ops = some db') :
    (∀ st ∈ db', Recorded st) ∧ ∀ st ∈ db, ∃ st' ∈ db', Develops st st' := by
  refine Runs.inv_run (I := fun db' => (∀ st ∈ db', Recorded st) ∧ ∀ st ∈ db, ∃ st' ∈ db', Develops st st') ?_
    ⟨hdb, fun st hst => ⟨st, hst, .refl st⟩⟩ h
  rintro u op v ⟨hu, hdev⟩ hv
  obtain ⟨hrec, hnext⟩ := perform_develops hu hv
  refine ⟨hrec, fun st hst => ?_⟩
  obtain ⟨st₁, hst₁, h₁⟩ := hdev st hst
  obtain ⟨st₂, hst₂, h₂⟩ := hnext st₁ hst₁
  exact ⟨st₂, hst₂, h₁.trans h₂⟩

theorem leavesRules_iff (h : reached n cs = some c) : LeavesRules st write n cs ↔
    (match write.apply c.id c.now st.rules with
      | .ok rules => (full { st with rules := rules }).content == (full st).content
      | .error _ => true) = true := by
  constructor
  · intro hleaves
    split
    · next rules hok => exact beq_iff_eq.mpr (hleaves c rules h hok)
    · rfl
  · intro hmatch c' rules hreached hok
    obtain rfl : c = c' := Option.some.inj (h.symm.trans hreached)
    rw [hok] at hmatch
    exact beq_iff_eq.mp hmatch

theorem keepsDeprecated_iff {id : String} (hfind : db.find id = some st) :
    keepsDeprecated db (.call id (.ruleEdit write userId) cs) = true ↔
      (st.standard.status = .deprecated → LeavesRules st write (if write.ruleId.isSome then 3 else 2) cs) := by
  simp only [keepsDeprecated, hfind]
  cases hreached : transactionChoice write cs with
  | none =>
    refine iff_of_true rfl fun _ c rules hc => ?_
    rw [show reached _ cs = none from hreached] at hc
    cases hc
  | some c =>
    rw [leavesRules_iff (show reached _ cs = some c from hreached), Bool.or_eq_true, bne_iff_ne,
      or_iff_not_imp_left, not_not]

/-- The condition is exact for one call. -/
theorem perform_deprecated (hdb : ∀ st ∈ db, Recorded st) (h : perform db op = some db') :
    (∀ st ∈ db, ∀ st' ∈ db', st'.id = st.id → st.standard.status = .deprecated → (full st').content = (full st).content) ↔
      keepsDeprecated db op = true := by
  have hsame : (∀ st ∈ db, st ∈ db') →
      ∀ st ∈ db, ∀ st' ∈ db', st'.id = st.id → st.standard.status = .deprecated →
        (full st').content = (full st).content := by
    intro hsub st hst st' hst' hid _
    rw [Rows.eq_of_key db'.unique hst' (hsub st hst) hid]
  cases op with
  | create input userId c =>
    refine iff_of_true (hsame fun st hst => ?_) rfl
    simp only [perform] at h
    split at h
    · cases h
      exact hst
    · next st₀ hcreate =>
      cases hnew : db.createMany [st₀] with
      | none =>
        rw [hnew] at h
        cases h
        exact hst
      | some db'' =>
        rw [hnew] at h
        cases h
        exact (Table.mem_createMany hnew).mpr (Or.inl hst)
  | call id r cs =>
    simp only [perform] at h
    split at h
    · next hnone =>
      cases h
      refine iff_of_true (hsame fun st hst => hst) ?_
      cases r with
      | ruleEdit write userId => simp [keepsDeprecated, hnone]
      | _ => rfl
    · next st₀ hfind =>
      obtain ⟨hst₀, rfl⟩ := Table.find_eq_some.mp hfind
      obtain ⟨⟨st₁, q⟩, halone, rfl⟩ := Option.map_eq_some_iff.mp h
      have hid₁ : st₁.id = st₀.id := (call_develops (hdb st₀ hst₀) halone).1.id
      have hst₁ : st₁ ∈ db.put st₁ := Table.mem_put.mpr (Or.inl ⟨st₀, hst₀, hid₁.symm, rfl⟩)
      constructor
      · intro hall
        cases r with
        | ruleEdit write userId =>
          refine (keepsDeprecated_iff hfind).mpr fun hdeprecated => ?_
          exact (call_deprecated hdeprecated halone).mp (hall st₀ hst₀ st₁ hst₁ hid₁ hdeprecated)
        | _ => rfl
      · intro hkeeps st hst st' hst' hid hdeprecated
        rcases Table.mem_put.mp hst' with ⟨u, hu, hkey, rfl⟩ | ⟨hst', hkey⟩
        · obtain rfl : st = st₀ := Rows.eq_of_key db.unique hst hst₀ (hid.symm.trans hid₁)
          refine (call_deprecated hdeprecated halone).mpr ?_
          cases r with
          | ruleEdit write userId => exact (keepsDeprecated_iff hfind).mp hkeeps hdeprecated
          | _ => trivial
        · rw [Rows.eq_of_key db.unique hst' hst hid]

theorem recorded_noStandards : ∀ st ∈ noStandards, Recorded st := fun st hst => by cases hst

/-- **The history of the standards is faithful, and deprecated ones do not change, in exactly the sequences of calls in
which no rule of a deprecated standard is changed.** -/
theorem history_faithful_iff (hrun : Runs.run perform noStandards ops = some db) :
    HistoryFaithful ops ↔ Runs.Along perform (fun db op => keepsDeprecated db op = true) noStandards ops := by
  constructor
  · intro hfaithful
    refine Runs.along_of_prefixes fun pre op post db₁ hsplit _ hpre => ?_
    rw [hsplit] at hrun
    obtain ⟨db₁', hpre', hrest⟩ := Runs.run_append.mp hrun
    obtain rfl : db₁ = db₁' := Option.some.inj (hpre.symm.trans hpre')
    obtain ⟨db₂, hop, -⟩ := Runs.run_cons.mp hrest
    have hdb₁ := (develops_run recorded_noStandards hpre).1
    exact (perform_deprecated hdb₁ hop).mp (hfaithful.frozen pre op post db₁ db₂ hsplit hpre hop)
  · intro hkeeps
    refine ⟨fun pre post db₁ _ hpre st hst n hn hlt => ?_,
      fun pre mid post db₁ db₂ _ hpre hmid st hst st' hst' hid hlt => ?_,
      fun pre op post db₁ db₂ hsplit hpre hop => ?_⟩
    · obtain ⟨row, hrow, hversion⟩ := ((develops_run recorded_noStandards hpre).1 st hst).rows n hn hlt
      refine ⟨row, ⟨hrow, hversion⟩, fun row' h' => ?_⟩
      exact Rows.eq_of_key st.versions.unique h'.1 hrow (h'.2.trans hversion.symm)
    · have hdb₁ := (develops_run recorded_noStandards hpre).1
      obtain ⟨st₂, hst₂, hdev⟩ := (develops_run hdb₁ hmid).2 st hst
      obtain rfl : st₂ = st' := Rows.eq_of_key db₂.unique hst₂ hst' (hdev.id.trans hid.symm)
      exact hdev.recorded hlt
    · rw [hsplit] at hkeeps
      have hdb₁ := (develops_run recorded_noStandards hpre).1
      exact (perform_deprecated hdb₁ hop).mpr ((Runs.along_append.mp hkeeps).2 db₁ hpre).1

/-! ## One standard -/

namespace Demo

def server : CreateStandardInput :=
  ⟨"Server", "Servers", none, "Safety", none, none, "author", none, none, false, [], [backup]⟩

def created : CreateChoice := ⟨none, "standard", "server", "space", fun _ => "backup", 0⟩

/-- An edit of a rule, a rejected update of the deprecated standard, and its way back into review. -/
def inTurnOps : List Op :=
  [.create server "author" created,
    .call "standard" (updateRule "backup" ⟨some "Backup", none, none, none, none, none, none, none, none, none⟩ "editor")
      [free, free, free, free, free],
    .call "standard" .deprecate [free, free],
    .call "standard" (.update { UpdateStandardInput.empty with title := some "Servers" } "editor") [free],
    .call "standard" .submit [free, free],
    .call "standard" (removeRule "backup" "editor") [free, free, free, free, free]]

def deprecatedOps : List Op := [.create server "author" created, .call "standard" .deprecate [free, free]]

/-- A rule is added to the deprecated standard. -/
def added : Op := .call "standard" (addRule backup "editor") [free, free, free, free]

end Demo

theorem history_faithful_in_turn : HistoryFaithful Demo.inTurnOps := by
  have hrun : (Runs.run perform noStandards Demo.inTurnOps).isSome := by decide +kernel
  obtain ⟨db, hdb⟩ := Option.isSome_iff_exists.mp hrun
  exact (history_faithful_iff hdb).mpr (by decide +kernel)

/-- `addRule` does not ask for the status: the rule is added, and the standard stays deprecated. -/
theorem rule_added_to_deprecated : ¬ HistoryFaithful (Demo.deprecatedOps ++ [Demo.added]) ∧ ∃ db db',
    Runs.run perform noStandards Demo.deprecatedOps = some db ∧ perform db Demo.added = some db' ∧
      ∃ st ∈ db, ∃ st' ∈ db', st'.id = st.id ∧ st.standard.status = .deprecated ∧ st'.standard.status = .deprecated ∧
        (full st').content ≠ (full st).content := by
  have hrun : (Runs.run perform noStandards Demo.deprecatedOps).any fun db => (perform db Demo.added).any fun db' =>
      db.rows.any fun st => db'.rows.any fun st' => st'.id == st.id && st.standard.status == .deprecated &&
        st'.standard.status == .deprecated && (full st').content != (full st).content := by
    decide +kernel
  obtain ⟨db, hdb, hnext⟩ := (Option.any_eq_true _ _).mp hrun
  obtain ⟨db', hdb', hrows⟩ := (Option.any_eq_true _ _).mp hnext
  obtain ⟨st, hst, hrows⟩ := List.any_eq_true.mp hrows
  obtain ⟨st', hst', hall⟩ := List.any_eq_true.mp hrows
  simp only [Bool.and_eq_true, beq_iff_eq, bne_iff_ne] at hall
  obtain ⟨⟨⟨hid, hbefore⟩, hafter⟩, hcontent⟩ := hall
  refine ⟨fun hfaithful => hcontent ?_, db, db', hdb, hdb', st, hst, st', hst', hid, hbefore, hafter, hcontent⟩
  exact hfaithful.frozen Demo.deprecatedOps Demo.added [] db db' rfl hdb hdb' st hst st' hst' hid hbefore

end AdWiki.Standards
