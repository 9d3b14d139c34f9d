import AdWiki.Standards.Service

/-!
# What is active was approved

`approve` activates whatever the rows hold when it writes, and an edit puts an active standard back into review only
if it has read it as active. An active standard has the texts and rules that were approved, and only an active standard
is visible for MCP, in every state of a run if and only if no write crosses another call in one of these ways
(`uncrossed`).

* `accepted_integrity`: the condition is exact for one statement.
* `approval_integrity_iff`: it is exact for whole runs.
* `edited_across_approval`: a rule that is added between the read and the write of `approve` is published.
-/

namespace AdWiki.Standards

variable {st st' : Entry} {i : Nat} {p q : Point} {c : Choice} {s t : Sys} {l : Label} {ls : List Label}

/-- An active standard is as it was when the approve call read it in review that activated it last, and only an active
standard is visible for MCP. -/
structure Integrity (st : Entry) : Prop where
  approved : st.standard.status = .active →
    ∃ current, st.approved = some current ∧ current.standard.status = .review ∧ (full st).content = current.content
  visible : st.standard.mcpVisible = true → st.standard.status = .active

/-- The condition on a statement: an approval finds what it has read, a release for MCP finds the standard active, and
an edit that has not read it as active does not find it so, unless it changes no text and no rule. -/
def uncrossedAt (st : Entry) (c : Choice) : Point → Bool
  | .approveWrite current => (full st).content == current.content
  | .mcpWrite _ mcpVisible => !mcpVisible || st.standard.status == .active
  | .updateWrite existing input spaceId =>
    existing.standard.status == .active || st.standard.status != .active ||
      (full (st.setStandard (existing.standard.write input spaceId st.standard))).content == (full st).content
  | .ruleWrite standard write =>
    standard.standard.status == .active || st.standard.status != .active ||
      match write.apply c.id c.now st.rules with
      | .error _ => true
      | .ok rules => (full { st with rules := rules }).content == (full st).content
  | _ => true

def uncrossed (s : Sys) : Label → Bool
  | .start _ => true
  | .exec i c => c.refused.isSome || (s.calls[i]?).all (uncrossedAt s.store c)

/-- What a call has checked. -/
def Checked : Point → Prop
  | .updateCheck existing input _ => Editable existing input
  | .updateSnapshot existing input _ _ => Editable existing input
  | .updateWrite existing input _ => Editable existing input
  | .approveWrite current => current.standard.status = .review
  | _ => True
where
  /-- An update with a content, or with nothing at all; it makes only an active standard visible. -/
  Editable (existing : FullStandard) (input : UpdateStandardInput) : Prop :=
    (input.contentChange = true ∨ input.mcpVisible = none) ∧
      (input.mcpVisible = some true → existing.standard.status = .active)

/-! ## One statement -/

@[simp] theorem full_standard : (full st).standard = st.standard := rfl

/-- Rows that agree on the standard, the rules and the approval. -/
theorem Integrity.congr (h : Integrity st) (hstandard : st'.standard = st.standard) (hrules : st'.rules = st.rules)
    (happroved : st'.approved = st.approved) : Integrity st' := by
  have hcontent : (full st').content = (full st).content := by
    simp only [full, FullStandard.content, hstandard, hrules]
  constructor
  · rw [hstandard, happroved, hcontent]
    exact h.approved
  · rw [hstandard]
    exact h.visible

/-- A write of the standard under its status that makes nothing visible keeps the integrity if and only if the standard
is not active or has the same texts. -/
theorem Integrity.write_iff (h : Integrity st) (st' : Entry) (hstatus : st'.standard.status = st.standard.status)
    (hvisible : st'.standard.mcpVisible = true → st.standard.mcpVisible = true) (happroved : st'.approved = st.approved) :
    Integrity st' ↔ st.standard.status ≠ .active ∨ (full st').content = (full st).content := by
  constructor
  · intro h'
    rcases eq_or_ne st.standard.status .active with hactive | hactive
    · obtain ⟨current, hcurrent, -, hcontent⟩ := h.approved hactive
      obtain ⟨current', hcurrent', -, hcontent'⟩ := h'.approved (hstatus.trans hactive)
      rw [happroved, hcurrent] at hcurrent'
      obtain rfl : current = current' := Option.some.inj hcurrent'
      exact Or.inr (hcontent'.trans hcontent.symm)
    · exact Or.inl hactive
  · intro hsame
    refine ⟨fun hactive => ?_, fun hv => by rw [hstatus]; exact h.visible (hvisible hv)⟩
    rw [hstatus] at hactive
    obtain ⟨current, hcurrent, hreview, hcontent⟩ := h.approved hactive
    refine ⟨current, happroved.trans hcurrent, hreview, ?_⟩
    rcases hsame with hno | hsame
    · exact absurd hactive hno
    · exact hsame.trans hcontent

/-- A standard that is not active and not visible. -/
theorem integrity_of_hidden (hstatus : st.standard.status ≠ .active) (hvisible : st.standard.mcpVisible = false) :
    Integrity st :=
  ⟨fun hactive => absurd hactive hstatus, fun hv => by rw [hvisible] at hv; cases hv⟩

/-- An update without a text field leaves the texts. -/
theorem content_unchanged {existing : Standard} {input : UpdateStandardInput} {spaceId : String}
    (h : input.contentChange = false) :
    (full (st.setStandard (existing.write input spaceId st.standard))).content = (full st).content := by
  simp only [UpdateStandardInput.contentChange, Bool.or_eq_false_iff, Option.isSome_eq_false_iff,
    Option.isNone_iff_eq_none] at h
  obtain ⟨⟨⟨⟨⟨⟨⟨⟨htitle, hdescription⟩, hspace⟩, hjustification⟩, hpriority⟩, hcategory⟩, hresponsible⟩,
    hfrom⟩, huntil⟩ := h
  simp [Standard.write, Standard.reviewIf, UpdateStandardInput.contentChange, FullStandard.content, full,
    Entry.setStandard, htitle, hdescription, hspace, hjustification, hpriority, hcategory, hresponsible, hfrom, huntil]

/-- The write of `update`. -/
theorem update_integrity {existing : FullStandard} {input : UpdateStandardInput} {spaceId : String} (hst : Integrity st)
    (hp : Checked.Editable existing input) :
    uncrossedAt st c (.updateWrite existing input spaceId) = true ↔
      Integrity (st.setStandard (existing.standard.write input spaceId st.standard)) := by
  obtain ⟨hkind, hvisible⟩ := hp
  by_cases hreview : existing.standard.status = .active ∧ input.contentChange = true
  · obtain ⟨hstatus, hmcp⟩ := Standard.write_reviewed st.standard spaceId hreview.1 hreview.2
    refine ⟨fun _ => integrity_of_hidden ?_ hmcp, fun _ => by simp [uncrossedAt, hreview.1]⟩
    rw [setStandard_standard, hstatus]
    exact StandardStatus.noConfusion
  · obtain ⟨hstatus, hmcp⟩ := Standard.write_kept st.standard spaceId hreview
    have hhidden : (existing.standard.write input spaceId st.standard).mcpVisible = true →
        st.standard.mcpVisible = true := by
      intro hv
      rw [hmcp] at hv
      cases hi : input.mcpVisible with
      | none => simpa [hi] using hv
      | some v =>
        obtain rfl : v = true := by simpa [hi] using hv
        -- the update is then one of an active standard with a content, which goes back into review
        rcases hkind with hchange | hnone
        · exact absurd ⟨hvisible hi, hchange⟩ hreview
        · rw [hnone] at hi
          cases hi
    rw [hst.write_iff (st.setStandard (existing.standard.write input spaceId st.standard)) hstatus hhidden rfl]
    rcases eq_or_ne existing.standard.status .active with hactive | hactive
    · have hchange : input.contentChange = false := by
        rw [Bool.eq_false_iff]
        exact fun hchange => hreview ⟨hactive, hchange⟩
      exact ⟨fun _ => Or.inr (content_unchanged hchange), fun _ => by simp [uncrossedAt, hactive]⟩
    · simp [uncrossedAt, hactive]

/-- The transaction of a change of the rules. -/
theorem rule_integrity {standard : FullStandard} {rules : Table StandardRule.id} (hst : Integrity st) :
    Integrity { st with rules := rules, standard := standard.standard.ruleChanged st.standard } ↔
      (standard.standard.status == .active || st.standard.status != .active ||
        (full { st with rules := rules }).content == (full st).content) = true := by
  rcases eq_or_ne standard.standard.status .active with hactive | hactive
  · obtain ⟨hstatus, hmcp⟩ := Standard.ruleChanged_reviewed st.standard hactive
    refine ⟨fun _ => by simp [hactive], fun _ => integrity_of_hidden ?_ hmcp⟩
    simp only [hstatus, ne_eq, reduceCtorEq, not_false_eq_true]
  · rw [Standard.ruleChanged_kept hactive,
      hst.write_iff
        { st with rules := rules, standard := { st.standard with version := st.standard.version + 1 } } rfl id rfl]
    simp [hactive, full, FullStandard.content]

/-- A refusal changes nothing. -/
theorem integrity_of_fail {e : HttpError} (hst : Integrity st) (h : fail st e = some (st', q)) :
    Integrity st' ∧ Checked q := by
  cases h
  exact ⟨hst, trivial⟩

section Branches

attribute [local simp] accepted

theorem updateRead_integrity {input : UpdateStandardInput} {userId : String} (hst : Integrity st)
    (h : accepted st (.updateRead input userId) c = some (st', q)) :
    (uncrossedAt st c (.updateRead input userId) = true ↔ Integrity st') ∧ Checked q := by
  simp only [accepted] at h
  split at h
  · exact (integrity_of_fail hst h).imp_left (iff_of_true rfl)
  · split at h
    · exact (integrity_of_fail hst h).imp_left (iff_of_true rfl)
    · next hvisible =>
      have hactive : input.mcpVisible = some true → (full st).standard.status = .active := by
        intro hv
        by_contra hno
        exact hvisible ⟨hv, hno⟩
      split at h
      · cases h
        exact ⟨iff_of_true rfl hst, trivial⟩
      · next hkind =>
        cases h
        refine ⟨iff_of_true rfl hst, ?_, hactive⟩
        cases hchange : input.contentChange with
        | true => exact Or.inl rfl
        | false =>
          cases hv : input.mcpVisible with
          | none => exact Or.inr rfl
          | some v => exact (hkind v hchange hv).elim

theorem mcpWrite_integrity {existing : FullStandard} {mcpVisible : Bool} (hst : Integrity st)
    (h : accepted st (.mcpWrite existing mcpVisible) c = some (st', q)) :
    (uncrossedAt st c (.mcpWrite existing mcpVisible) = true ↔ Integrity st') ∧ Checked q := by
  simp only [accepted, writeStandard, Option.some.injEq, Prod.mk.injEq] at h
  obtain ⟨rfl, rfl⟩ := h
  refine ⟨?_, trivial⟩
  cases mcpVisible with
  | false =>
    exact iff_of_true rfl ⟨hst.approved, fun hv => by cases hv⟩
  | true =>
    simp only [uncrossedAt, Bool.not_true, Bool.false_or, beq_iff_eq]
    exact ⟨fun hactive => ⟨hst.approved, fun _ => hactive⟩, fun h' => h'.visible rfl⟩

theorem approveWrite_integrity {current : FullStandard} (hp : Checked (.approveWrite current))
    (h : accepted st (.approveWrite current) c = some (st', q)) :
    (uncrossedAt st c (.approveWrite current) = true ↔ Integrity st') ∧ Checked q := by
  simp only [accepted, writeStandard, Option.some.injEq, Prod.mk.injEq] at h
  obtain ⟨rfl, rfl⟩ := h
  refine ⟨?_, trivial⟩
  simp only [uncrossedAt, beq_iff_eq]
  constructor
  · intro hsame
    exact ⟨fun _ => ⟨current, rfl, hp, hsame⟩, fun _ => rfl⟩
  · intro h'
    obtain ⟨current', hcurrent, -, hcontent⟩ := h'.approved rfl
    cases hcurrent
    exact hcontent

theorem ruleWrite_integrity {standard : FullStandard} {write : RuleWrite} (hst : Integrity st)
    (h : accepted st (.ruleWrite standard write) c = some (st', q)) :
    (uncrossedAt st c (.ruleWrite standard write) = true ↔ Integrity st') ∧ Checked q := by
  simp only [accepted] at h
  split at h
  · next e herror =>
    exact (integrity_of_fail hst h).imp_left (iff_of_true (by simp [uncrossedAt, herror]))
  · next rules hrules =>
    cases h
    refine ⟨?_, trivial⟩
    simp only [uncrossedAt, hrules, ← rule_integrity hst]

end Branches

/-- The condition is exact for one statement that nothing refuses. -/
theorem accepted_integrity (hst : Integrity st) (hp : Checked p) (h : accepted st p c = some (st', q)) :
    (uncrossedAt st c p = true ↔ Integrity st') ∧ Checked q := by
  cases p with
  | updateRead input userId => exact updateRead_integrity hst h
  | mcpWrite existing mcpVisible => exact mcpWrite_integrity hst h
  | updateCheck existing input userId =>
    cases h
    exact ⟨iff_of_true rfl hst, hp⟩
  | updateSnapshot existing input userId spaceId =>
    cases h
    exact ⟨iff_of_true rfl (hst.congr rfl rfl rfl), hp⟩
  | updateWrite existing input spaceId =>
    simp only [accepted, writeStandard, Option.some.injEq, Prod.mk.injEq] at h
    obtain ⟨rfl, rfl⟩ := h
    exact ⟨update_integrity hst hp, trivial⟩
  | submitRead =>
    cases h
    exact ⟨iff_of_true rfl hst, trivial⟩
  | submitWrite =>
    simp only [accepted, writeStandard, Option.some.injEq, Prod.mk.injEq] at h
    obtain ⟨rfl, rfl⟩ := h
    exact ⟨iff_of_true rfl (integrity_of_hidden StandardStatus.noConfusion rfl), trivial⟩
  | approveRead =>
    simp only [accepted] at h
    split at h
    · exact (integrity_of_fail hst h).imp_left (iff_of_true rfl)
    · next hreview =>
      cases h
      exact ⟨iff_of_true rfl hst, not_not.mp hreview⟩
  | approveWrite current => exact approveWrite_integrity hp h
  | deprecateRead =>
    cases h
    exact ⟨iff_of_true rfl hst, trivial⟩
  | deprecateWrite =>
    simp only [accepted, writeStandard, Option.some.injEq, Prod.mk.injEq] at h
    obtain ⟨rfl, rfl⟩ := h
    exact ⟨iff_of_true rfl (integrity_of_hidden StandardStatus.noConfusion rfl), trivial⟩
  | ruleRead write userId =>
    simp only [accepted] at h
    split at h
    · cases h
      exact ⟨iff_of_true rfl hst, trivial⟩
    · cases h
      exact ⟨iff_of_true rfl hst, trivial⟩
  | ensureRule standard write userId =>
    simp only [accepted] at h
    split at h
    · cases h
      exact ⟨iff_of_true rfl hst, trivial⟩
    · exact (integrity_of_fail hst h).imp_left (iff_of_true rfl)
  | ruleSnapshot standard write userId =>
    cases h
    exact ⟨iff_of_true rfl (hst.congr rfl rfl rfl), trivial⟩
  | ruleWrite standard write => exact ruleWrite_integrity hst h
  | linkRead pageId =>
    cases h
    exact ⟨iff_of_true rfl hst, trivial⟩
  | linkWrite pageId =>
    cases h
    exact ⟨iff_of_true rfl (hst.congr rfl rfl rfl), trivial⟩
  | unlinkWrite pageId =>
    cases h
    exact ⟨iff_of_true rfl (hst.congr rfl rfl rfl), trivial⟩
  | findOne =>
    cases h
    exact ⟨iff_of_true rfl hst, trivial⟩
  | done result => cases h

/-! ## Runs -/

/-- The calls on the standard. -/
def CheckedInv : Sys → Prop := Interleave.Inv (fun _ => True) fun _ _ p => Checked p

theorem checkedInv_init (st : Entry) : CheckedInv (init st) := ⟨trivial, fun i p hp => by simp [init] at hp⟩

/-- A statement checks what the next one writes. -/
theorem checkedInv_step (hs : Integrity s.store) (hchecked : CheckedInv s) (h : step s l = some t) : CheckedInv t := by
  refine Interleave.inv_step (P := fun s _ => Integrity s.store) ?_ ?_ l hchecked hs h
  · intro i st r _
    cases r <;> trivial
  · intro s i p c st q hchecked hs hp hq
    refine ⟨trivial, ?_, fun j p' _ hp' => hchecked.calls j p' hp'⟩
    rcases stmt_cases hq with ⟨e, -, -, rfl⟩ | ⟨-, haccepted⟩
    · trivial
    · exact (accepted_integrity hs (hchecked.calls i p hp) haccepted).2

/-- The condition is exact for one step. -/
theorem step_integrity (s : Sys) (l : Label) (t : Sys) (hs : Integrity s.store) (hchecked : CheckedInv s)
    (h : step s l = some t) : (uncrossed s l = true ↔ Integrity t.store) ∧ CheckedInv t := by
  refine ⟨?_, checkedInv_step hs hchecked h⟩
  cases l with
  | start r =>
    rw [Interleave.step_start h]
    exact ⟨fun _ => hs, fun _ => rfl⟩
  | exec i c =>
    obtain ⟨p, st, q, hp, hq, rfl⟩ := Interleave.step_exec h
    rcases stmt_cases hq with ⟨e, hrefused, rfl, -⟩ | ⟨hfree, haccepted⟩
    · simpa [uncrossed, hrefused] using hs
    · simpa [uncrossed, hfree, hp] using (accepted_integrity hs (hchecked.calls i p hp) haccepted).1

/-- **Approval integrity holds in every state of exactly the runs in which no write crosses another call.** -/
theorem approval_integrity_iff (hstatus : st.standard.status ≠ .active) (hvisible : st.standard.mcpVisible = false)
    (hrun : Runs.run step (init st) ls = some t) :
    Runs.Throughout step (fun s => Integrity s.store) (init st) ls ↔
      Runs.Along step (fun s l => uncrossed s l = true) (init st) ls :=
  Runs.throughout_iff_along_inv step_integrity (integrity_of_hidden hstatus hvisible) (checkedInv_init st) hrun

/-! ## One standard -/

namespace Demo

def standard : Standard where
  id := "standard"
  spaceId := "space"
  title := "Server"
  slug := "server"
  description := "Servers"
  justification := "Safety"
  status := .draft
  priority := .medium
  version := 1
  mcpVisible := false
  validFrom := none
  validUntil := none
  createdById := "author"
  responsibleId := "author"
  categoryId := none

def draft : Entry := ⟨standard, ⟨[], List.nodup_nil⟩, ⟨[], List.nodup_nil⟩, ⟨[], List.nodup_nil⟩, none⟩

def free : Choice := ⟨none, "space", "rule", 0⟩

def backup : CreateStandardRuleInput := ⟨"No backup", none, none, none, none, none, none, none, none, none⟩

/-- Submit, then the read of `approve`. -/
def submitted : List Label :=
  [.start .submit, .exec 0 free, .exec 0 free, .start .approve, .exec 1 free]

/-- A rule is added, by a call that has read the standard in review. -/
def ruleAdded : List Label := [.start (addRule backup "editor"), .exec 2 free, .exec 2 free, .exec 2 free, .exec 2 free]

/-- Approve, release for MCP, then add a rule. -/
def inTurn : List Label :=
  submitted ++ [.exec 1 free] ++
    [.start (.update { UpdateStandardInput.empty with mcpVisible := some true } "editor"), .exec 2 free, .exec 2 free] ++
    [.start (addRule backup "editor"), .exec 3 free, .exec 3 free, .exec 3 free]

end Demo

/-- In turn: the rule puts the released standard back into review. -/
theorem approval_integrity_in_turn :
    Runs.Throughout step (fun s => Integrity s.store) (init Demo.draft) Demo.inTurn := by
  have hrun : (Runs.run step (init Demo.draft) Demo.inTurn).isSome := by decide +kernel
  obtain ⟨t, ht⟩ := Option.isSome_iff_exists.mp hrun
  exact (approval_integrity_iff (by decide) rfl ht).mpr (by decide +kernel)

/-- A rule that is added between the read and the write of `approve` is active, and was not there for the approval. -/
theorem edited_across_approval : ∃ t current,
    Runs.run step (init Demo.draft) (Demo.submitted ++ Demo.ruleAdded ++ [.exec 1 Demo.free]) = some t ∧
      t.store.standard.status = .active ∧ t.store.approved = some current ∧ current.rules = [] ∧
      (full t.store).rules.length = 1 ∧ ¬ Integrity t.store := by
  have hrun : (Runs.run step (init Demo.draft) (Demo.submitted ++ Demo.ruleAdded ++ [.exec 1 Demo.free])).any fun t =>
      t.store.standard.status == .active && t.store.approved.any (·.rules == []) && (full t.store).rules.length == 1 := by
    decide +kernel
  obtain ⟨t, ht, hall⟩ := (Option.any_eq_true _ _).mp hrun
  simp only [Bool.and_eq_true, beq_iff_eq] at hall
  obtain ⟨⟨hactive, happroved⟩, hlength⟩ := hall
  obtain ⟨current, hcurrent, hrules⟩ := (Option.any_eq_true _ _).mp happroved
  refine ⟨t, current, ht, hactive, hcurrent, beq_iff_eq.mp hrules, hlength, fun h => ?_⟩
  obtain ⟨current', hcurrent', -, hcontent⟩ := h.approved hactive
  obtain rfl : current = current' := Option.some.inj (hcurrent.symm.trans hcurrent')
  have hsame : ruleTexts (full t.store).rules = ruleTexts current.rules := congrArg Content.rules hcontent
  have hzero : (full t.store).rules.length = 0 := by
    simpa [ruleTexts, beq_iff_eq.mp hrules] using congrArg List.length hsame
  omega

end AdWiki.Standards
