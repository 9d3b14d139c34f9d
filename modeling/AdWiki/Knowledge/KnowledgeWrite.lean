import AdWiki.Knowledge.StandardsEvaluation
import AdWiki.Wiki.OptimisticLock

/-!
# Updates by AI clients

`KnowledgeWriteService.updatePage` reads whether the page is a draft, and then calls `PagesService.update` with the
version that the client expects. Any number of such calls run beside updates and toggles from the web on one page, each
read and each transaction a step of its own. Between the two reads of a call the page can be published, and the client may
have guessed the version that the publication gives it.

* `waiting_step`: a page that is no draft never has a version that a call which has seen a draft still waits for, as long
  as no update from the web gives it one (`publishesUnawaited`).
* `drafts_only`: then the calls write drafts only.
* `writesAlone_of_waitsFor`: the condition is exact, since a call that waits for the version of the page writes it.
* `published_overwritten`: a client that has guessed the version overwrites a published page.
-/

namespace AdWiki.Knowledge

open Wiki Wiki.Edits

structure McpUpdatePageInput where
  expectedVersion : Nat
  title : Option String
  content : Option String
  excerpt : Option (Option String)
  categoryId : Option (Option String)
  parentId : Option (Option String)
  changeMessage : String
  deriving DecidableEq, Repr

/-- The input for `PagesService.update`. -/
def McpUpdatePageInput.changes (input : McpUpdatePageInput) : UpdatePageInput where
  title := input.title
  spaceId := none
  content := input.content
  excerpt := input.excerpt
  status := none
  isPublic := none
  mcpVisible := some false
  type := none
  categoryId := input.categoryId
  parentId := input.parentId
  sortOrder := none
  changeMessage := some ("[MCP] " ++ input.changeMessage)

/-- What `findUpdateState` selects. -/
structure UpdateState where
  id : String
  type : PageType
  status : PageStatus
  version : Nat
  deriving DecidableEq, Repr

inductive WriteCall
  | updatePage (context : KnowledgeAccessContext) (input : McpUpdatePageInput)
  | web (call : Edits.Call)

/-- `update` is a point of `PagesService.update` within `updatePage`. -/
inductive WritePoint
  | findUpdateState (context : KnowledgeAccessContext) (input : McpUpdatePageInput)
  | draftCheck (current : UpdateState) (context : KnowledgeAccessContext) (input : McpUpdatePageInput)
  | update (p : Edits.Point)
  | web (p : Edits.Point)

def entry : WriteCall → WritePoint
  | .updatePage context input => .findUpdateState context input
  | .web call => .web (Edits.entry call)

def missingScope : HttpError := .forbidden "Für dieses Schreibwerkzeug fehlt die Berechtigung."

def notAPage : HttpError := .badRequest "MCP kann nur Inhaltsseiten bearbeiten."

def notADraft : HttpError := .conflict ("Veröffentlichte oder archivierte Seiten werden nicht direkt geändert. " ++
  "Dafür ist künftig ein KnowledgeChangeRequest vorgesehen.")

def refuse (st : Store) (e : HttpError) : Option (Store × WritePoint) := some (st, .update (.done (.error e)))

def stmt (env : Edits.Env) (st : Store) (i : Nat) (p : WritePoint) (c : Edits.Choice) : Option (Store × WritePoint) :=
  match p with
  | .findUpdateState context input =>
    if !context.scopes.contains "pages:update" then refuse st missingScope
    else if st.page.deletedAt.isSome then refuse st (pageNotFound st.page.id)
    else some (st, .draftCheck ⟨st.page.id, st.page.type, st.page.status, st.page.version⟩ context input)
  | .draftCheck current context input =>
    match c.refused with
    | some e => refuse st e
    | none =>
      if current.type ≠ .page then refuse st notAPage
      else if current.status ≠ .draft then refuse st notADraft
      else some (st, .update (.updateRead input.changes ⟨some input.expectedVersion, some context.userId⟩))
  | .update p => (Edits.stmt env st i p c).map fun q => (q.1, .update q.2)
  | .web p => (Edits.stmt env st i p c).map fun q => (q.1, .web q.2)

abbrev Sys := Interleave.Sys Store WritePoint

abbrev Label := Interleave.Label WriteCall Edits.Choice

def init (store : Store) : Sys := ⟨store, []⟩

abbrev step (env : Edits.Env) : Sys → Label → Option Sys := Interleave.step entry (stmt env)

/-! ## Calls that wait for a version -/

/-- The version at which a call that has seen a draft is still going to write. -/
def WritePoint.waitsFor : WritePoint → Option Nat
  | .draftCheck current _ input =>
    if current.type = .page ∧ current.status = .draft then some input.expectedVersion else none
  | .update (.updateRead _ options) => options.expectedVersion
  | .update (.updateCheck existing _ options) => options.expectedVersion.filter (· == existing.version)
  | .update (.updateTx _ _ options _) => options.expectedVersion
  | _ => none

/-- An update from the web that leaves the page published or archived gives it a version that no call waits for. -/
def publishesUnawaited (s : Sys) : Label → Bool
  | .exec i _ =>
    match s.calls[i]? with
    | some (.web (.updateTx existing input _ _)) =>
      input.status.getD s.store.page.status == .draft || s.calls.all fun p => p.waitsFor != some (existing.version + 1)
    | _ => true
  | .start _ => true

variable {env : Edits.Env} {st st' : Store} {i : Nat} {c : Edits.Choice} {s t : Sys}

/-- Where a call of `PagesService` goes that neither ends nor writes. -/
inductive Moves (row : Page) : Edits.Point → Edits.Point → Prop
  | read {input options} : Moves row (.updateRead input options) (.updateCheck row input options)
  | check {existing input options spaceId} : (∀ v, options.expectedVersion = some v → existing.version = v) →
    Moves row (.updateCheck existing input options) (.updateTx existing input options spaceId)
  | toggleRead {checkboxIndex checked} :
    Moves row (.toggleRead checkboxIndex checked) (.toggleCheck row.content checkboxIndex checked)
  | toggleCheck {existing checkboxIndex checked content} :
    Moves row (.toggleCheck existing checkboxIndex checked) (.toggleWrite existing content)

theorem moves_of_running {p q : Edits.Point} (h : Edits.stmt env st i p c = some (st', q)) (hrunning : q.running = true) :
    Moves st.page p q := by
  have hended : ∀ {e}, Edits.fail st e = some (st', q) → Moves st.page p q := by
    intro e he
    cases he
    cases hrunning
  cases p with
  | updateRead input options =>
    simp only [Edits.stmt] at h
    split at h
    · exact hended h
    · cases h
      exact .read
  | updateCheck existing input options =>
    simp only [Edits.stmt] at h
    split at h
    · exact hended h
    · split at h
      · next hnone =>
        cases h
        exact .check fun v hv => by rw [hnone] at hv; cases hv
      · next expected hsome =>
        split at h
        · exact hended h
        · next hsame =>
          cases h
          exact .check fun v hv => (not_not.mp hsame).trans (Option.some.inj (hsome.symm.trans hv))
  | updateTx existing input options spaceId =>
    simp only [Edits.stmt] at h
    split at h
    · exact hended h
    · split at h
      · cases h
        cases hrunning
      · exact hended h
  | toggleRead checkboxIndex checked =>
    simp only [Edits.stmt] at h
    split at h
    · exact hended h
    · cases h
      exact .toggleRead
  | toggleCheck existing checkboxIndex checked =>
    simp only [Edits.stmt] at h
    split at h
    · exact hended h
    · split at h
      · exact hended h
      · cases h
        exact .toggleCheck
  | toggleWrite existing content =>
    simp only [Edits.stmt] at h
    split at h
    · exact hended h
    · cases h
      cases hrunning
  | done result => cases h

/-- One statement of a call: it changes nothing, or is the write of an update, or the write of a toggle. -/
theorem stmt_cases {p q : WritePoint} (h : stmt env st i p c = some (st', q)) :
    st' = st ∨
    (∃ existing input options spaceId, (p = .update (.updateTx existing input options spaceId) ∨
        p = .web (.updateTx existing input options spaceId)) ∧ updatable options st.page = true ∧
      st'.page = existing.write input spaceId st.page) ∨
    ∃ existing content, (p = .update (.toggleWrite existing content) ∨ p = .web (.toggleWrite existing content)) ∧
      st'.page = { st.page with content := content } := by
  have hedit : ∀ {p q}, Edits.stmt env st i p c = some (st', q) → st' = st ∨
      (∃ existing input options spaceId, p = .updateTx existing input options spaceId ∧ updatable options st.page = true ∧
        st'.page = existing.write input spaceId st.page) ∨
      ∃ existing content, p = .toggleWrite existing content ∧ st'.page = { st.page with content := content } := by
    intro p q h
    rcases Edits.stmt_cases h with ⟨hsame, -⟩ | ⟨existing, input, options, spaceId, rfl, hrow, rfl, -⟩ |
      ⟨existing, content, rfl, rfl, -⟩
    · exact Or.inl hsame
    · exact Or.inr (Or.inl ⟨existing, input, options, spaceId, rfl, hrow, rfl⟩)
    · exact Or.inr (Or.inr ⟨existing, content, rfl, rfl⟩)
  cases p with
  | findUpdateState context input =>
    refine Or.inl ?_
    simp only [stmt, refuse] at h
    split at h
    · cases h
      rfl
    · split at h <;> · cases h; rfl
  | draftCheck current context input =>
    refine Or.inl ?_
    simp only [stmt, refuse] at h
    split at h
    · cases h
      rfl
    · split at h
      · cases h
        rfl
      · split at h <;> · cases h; rfl
  | update p =>
    obtain ⟨⟨st₁, q₁⟩, hq, heq⟩ := Option.map_eq_some_iff.mp h
    cases heq
    rcases hedit hq with hsame | ⟨existing, input, options, spaceId, rfl, hrow, hpage⟩ | ⟨existing, content, rfl, hpage⟩
    · exact Or.inl hsame
    · exact Or.inr (Or.inl ⟨existing, input, options, spaceId, Or.inl rfl, hrow, hpage⟩)
    · exact Or.inr (Or.inr ⟨existing, content, Or.inl rfl, hpage⟩)
  | web p =>
    obtain ⟨⟨st₁, q₁⟩, hq, heq⟩ := Option.map_eq_some_iff.mp h
    cases heq
    rcases hedit hq with hsame | ⟨existing, input, options, spaceId, rfl, hrow, hpage⟩ | ⟨existing, content, rfl, hpage⟩
    · exact Or.inl hsame
    · exact Or.inr (Or.inl ⟨existing, input, options, spaceId, Or.inr rfl, hrow, hpage⟩)
    · exact Or.inr (Or.inr ⟨existing, content, Or.inr rfl, hpage⟩)

/-! ## The invariant -/

/-- What an AI client may not set: the status; and the page is taken out of the reach of AI clients. -/
def FixedFields (input : UpdatePageInput) (options : Edits.PageUpdateOptions) : Prop :=
  input.status = none ∧ input.mcpVisible = some false ∧ options.expectedVersion.isSome

/-- The update within `updatePage` has the fixed fields, and is no toggle. -/
def WritePoint.Fixed : WritePoint → Prop
  | .update (.updateRead input options) => FixedFields input options
  | .update (.updateCheck _ input options) => FixedFields input options
  | .update (.updateTx _ input options _) => FixedFields input options
  | .update (.done _) => True
  | .update _ => False
  | _ => True

/-- The page is a draft, or has another version than the call waits for. -/
def Waiting (st : Store) (p : WritePoint) : Prop :=
  ∀ v, p.waitsFor = some v → st.page.status = .draft ∨ st.page.version ≠ v

def WriteInv : Sys → Prop := Interleave.Inv (fun _ => True) fun _ st p => p.Fixed ∧ Waiting st p

/-- A call goes on with the version that it has waited for, or begins to wait for one at a draft. -/
theorem own_step {p q : WritePoint} (hp : p.Fixed ∧ Waiting st p) (h : stmt env st i p c = some (st', q))
    (hsame : st' = st) : q.Fixed ∧ Waiting st' q := by
  subst hsame
  have hdone : ∀ {e}, refuse st' e = some (st', q) → q.Fixed ∧ Waiting st' q := by
    intro e he
    cases he
    exact ⟨trivial, fun v hv => nomatch hv⟩
  cases p with
  | findUpdateState context input =>
    simp only [stmt] at h
    split at h
    · exact hdone h
    · split at h
      · exact hdone h
      · cases h
        refine ⟨trivial, fun v hv => ?_⟩
        simp only [WritePoint.waitsFor] at hv
        split at hv
        · next hdraft => exact Or.inl hdraft.2
        · cases hv
  | draftCheck current context input =>
    simp only [stmt] at h
    split at h
    · exact hdone h
    · split at h
      · exact hdone h
      · next htype =>
        split at h
        · exact hdone h
        · next hstatus =>
          cases h
          refine ⟨⟨rfl, rfl, rfl⟩, fun v hv => hp.2 v ?_⟩
          rw [WritePoint.waitsFor, if_pos ⟨not_not.mp htype, not_not.mp hstatus⟩]
          exact hv
  | update p =>
    obtain ⟨⟨st₁, q₁⟩, hq, heq⟩ := Option.map_eq_some_iff.mp h
    obtain rfl : st₁ = st' := congrArg Prod.fst heq
    obtain rfl : WritePoint.update q₁ = q := congrArg Prod.snd heq
    cases hrunning : q₁.running with
    | false =>
      cases q₁ with
      | done result => exact ⟨trivial, fun v hv => nomatch hv⟩
      | _ => cases hrunning
    | true =>
      cases moves_of_running hq hrunning with
      | read => exact ⟨hp.1, fun v hv => hp.2 v (Option.filter_eq_some_iff.mp hv).1⟩
      | check hversion =>
        refine ⟨hp.1, fun v hv => hp.2 v ?_⟩
        exact Option.filter_eq_some_iff.mpr ⟨hv, beq_iff_eq.mpr (hversion v hv).symm⟩
      | toggleRead => exact hp.1.elim
      | toggleCheck => exact hp.1.elim
  | web p =>
    obtain ⟨⟨st₁, q₁⟩, -, heq⟩ := Option.map_eq_some_iff.mp h
    cases heq
    exact ⟨trivial, fun v hv => nomatch hv⟩

/-- A call that has written is done. -/
theorem done_of_write {existing : Page} {input : UpdatePageInput} {options : Edits.PageUpdateOptions} {spaceId : String}
    {q : WritePoint} (h : stmt env st i (.update (.updateTx existing input options spaceId)) c = some (st', q)) :
    ∃ result, q = .update (.done result) := by
  obtain ⟨⟨st₁, q₁⟩, hq, heq⟩ := Option.map_eq_some_iff.mp h
  obtain rfl : WritePoint.update q₁ = q := congrArg Prod.snd heq
  cases hrunning : q₁.running with
  | false =>
    cases q₁ with
    | done result => exact ⟨result, rfl⟩
    | _ => cases hrunning
  | true => cases moves_of_running hq hrunning

theorem waiting_step {l : Label} (hs : WriteInv s) (hl : publishesUnawaited s l = true) (h : step env s l = some t) :
    WriteInv t := by
  refine Interleave.inv_step (P := fun s l => publishesUnawaited s l = true) ?_ ?_ l hs hl h
  · intro i st r _
    cases r <;> exact ⟨trivial, fun v hv => nomatch hv⟩
  · intro s i p c st q hs hl hp hq
    have hown := hs.calls i p hp
    -- where the page is a draft afterwards, or has its old status and version, nobody waits in vain
    have hothers : ∀ st : Store, (st.page.status = .draft ∨ st.page.status = s.store.page.status ∧
        st.page.version = s.store.page.version) → ∀ (j : Nat) (p' : WritePoint), s.calls[j]? = some p' →
          p'.Fixed ∧ Waiting st p' := by
      intro st hpage j p' hp'
      obtain ⟨hfixed, hwaiting⟩ := hs.calls j p' hp'
      refine ⟨hfixed, fun v hv => ?_⟩
      rcases hpage with hdraft | ⟨hstatus, hversion⟩
      · exact Or.inl hdraft
      · rw [hstatus, hversion]
        exact hwaiting v hv
    rcases stmt_cases hq with hsame | ⟨existing, input, options, spaceId, rfl | rfl, hrow, hpage⟩ |
      ⟨existing, content, rfl | rfl, hpage⟩
    · refine ⟨trivial, own_step hown hq hsame, fun j p' _ hp' => ?_⟩
      rw [hsame]
      exact hs.calls j p' hp'
    · -- the call has waited for the version of the row, so the row is a draft
      obtain ⟨⟨hstatus, -, hversion⟩, hwaiting⟩ := hown
      obtain ⟨v, hv⟩ := Option.isSome_iff_exists.mp hversion
      have hnow : v = s.store.page.version := (updatable_iff.mp hrow).2 v hv
      have hdraft : st.page.status = .draft := by
        rw [hpage]
        show input.status.getD s.store.page.status = .draft
        rw [hstatus, Option.getD_none]
        exact (hwaiting v hv).resolve_right fun hne => hne hnow.symm
      obtain ⟨result, rfl⟩ := done_of_write hq
      exact ⟨trivial, ⟨trivial, fun v hv => nomatch hv⟩, fun j p' _ => hothers st (Or.inl hdraft) j p'⟩
    · have hq' : q.Fixed ∧ Waiting st q := by
        obtain ⟨⟨st₁, q₁⟩, -, heq⟩ := Option.map_eq_some_iff.mp hq
        obtain rfl : WritePoint.web q₁ = q := congrArg Prod.snd heq
        exact ⟨trivial, fun v hv => nomatch hv⟩
      refine ⟨trivial, hq', fun j p' _ hp' => ?_⟩
      simp only [publishesUnawaited, hp, Bool.or_eq_true, beq_iff_eq, List.all_eq_true, bne_iff_ne] at hl
      have hstatus : st.page.status = input.status.getD s.store.page.status := by rw [hpage]; rfl
      have hversion : st.page.version = existing.version + 1 := by rw [hpage]; rfl
      rcases hl with hdraft | hunawaited
      · exact hothers st (Or.inl (hstatus.trans hdraft)) j p' hp'
      · refine ⟨(hs.calls j p' hp').1, fun v hv => Or.inr fun hsame => ?_⟩
        refine hunawaited p' (List.mem_of_getElem? hp') ?_
        rw [hv, ← hsame, hversion]
    · exact hown.1.elim
    · have hq' : q.Fixed ∧ Waiting st q := by
        obtain ⟨⟨st₁, q₁⟩, -, heq⟩ := Option.map_eq_some_iff.mp hq
        obtain rfl : WritePoint.web q₁ = q := congrArg Prod.snd heq
        exact ⟨trivial, fun v hv => nomatch hv⟩
      refine ⟨trivial, hq', fun j p' _ => hothers st (Or.inr ?_) j p'⟩
      rw [hpage]
      exact ⟨rfl, rfl⟩

theorem writeInv_init (store : Store) : WriteInv (init store) := ⟨trivial, fun i p hp => by simp [init] at hp⟩

/-! ## The condition is exact -/

def WritePoint.ended : WritePoint → Bool
  | .update (.done _) => true
  | _ => false

def free : Edits.Choice := ⟨none, ""⟩

/-- The call, executed without others in between and without a refusal, writes the page. -/
def WritesAlone (env : Edits.Env) (st : Store) (p : WritePoint) : Prop :=
  ∃ cs st' q, Interleave.alone (stmt env) WritePoint.ended st p cs = some (st', q) ∧
    st'.versions.length = st.versions.length + 1

theorem WritesAlone.of_step {p q : WritePoint} (h : stmt env st 0 p free = some (st, q)) (hq : WritesAlone env st q) :
    WritesAlone env st p := by
  obtain ⟨cs, st', q', hrest, hlength⟩ := hq
  exact ⟨free :: cs, st', q', Interleave.alone_cons.mpr ⟨st, q, h, hrest⟩, hlength⟩

/-- A call that waits for the version of the page writes it, draft or not. -/
theorem writesAlone_of_waitsFor {p : WritePoint} (hlive : st.page.deletedAt = none)
    (hwaits : p.waitsFor = some st.page.version) : WritesAlone env st p := by
  have htx : ∀ existing input options spaceId, options.expectedVersion = some st.page.version →
      WritesAlone env st (.update (.updateTx existing input options spaceId)) := by
    intro existing input options spaceId hversion
    have hrow : updatable options st.page = true :=
      updatable_iff.mpr ⟨hlive, fun v hv => Option.some.inj (hv.symm.trans hversion)⟩
    refine ⟨[free], ⟨existing.write input spaceId st.page, st.versions ++ [existing.snapshot input options.editorId]⟩,
      .update (.done (.ok (existing.write input spaceId st.page))), ?_, by simp⟩
    refine Interleave.alone_cons.mpr ⟨_, _, ?_, Interleave.alone_nil.mpr ⟨rfl, rfl, rfl⟩⟩
    simp only [stmt, Edits.stmt, free, hrow, if_true]
    rfl
  have hcheck : ∀ existing input options, options.expectedVersion = some st.page.version →
      existing.version = st.page.version → WritesAlone env st (.update (.updateCheck existing input options)) := by
    intro existing input options hversion hsame
    refine .of_step ?_ (htx existing input options (if input.assignmentChanged then "" else existing.spaceId) hversion)
    simp only [stmt, Edits.stmt, free, hversion, hsame, ne_eq, not_true_eq_false, if_false]
    rfl
  have hread : ∀ input options, options.expectedVersion = some st.page.version →
      WritesAlone env st (.update (.updateRead input options)) := by
    intro input options hversion
    refine .of_step ?_ (hcheck st.page input options hversion rfl)
    simp only [stmt, Edits.stmt, hlive, Option.isSome_none, Bool.false_eq_true, if_false]
    rfl
  cases p with
  | findUpdateState context input => cases hwaits
  | draftCheck current context input =>
    simp only [WritePoint.waitsFor] at hwaits
    split at hwaits
    · next hdraft =>
      refine .of_step ?_ (hread input.changes ⟨some input.expectedVersion, some context.userId⟩ hwaits)
      simp only [stmt, free, hdraft.1, hdraft.2, ne_eq, not_true_eq_false, if_false]
    · cases hwaits
  | update p =>
    cases p with
    | updateRead input options => exact hread input options hwaits
    | updateCheck existing input options =>
      obtain ⟨hversion, hsame⟩ := Option.filter_eq_some_iff.mp hwaits
      exact hcheck existing input options hversion (beq_iff_eq.mp hsame).symm
    | updateTx existing input options spaceId => exact htx existing input options spaceId hwaits
    | _ => cases hwaits
  | web p => cases hwaits

/-! ## AI clients and published pages -/

/-- The call is an `updatePage`. -/
def WritePoint.isUpdatePage : WritePoint → Bool
  | .web _ => false
  | _ => true

/-- **AI clients write drafts only.** As long as no update from the web gives a page that is no draft a version which an
`updatePage` call waits for that has seen a draft: whatever an `updatePage` call changes is a draft, stays one, and is
then not visible to AI clients. -/
theorem drafts_only (env : Edits.Env) (store : Store) (ls : List Label) (s t : Sys) (i : Nat) (c : Edits.Choice)
    (p : WritePoint) (hrun : Runs.run (step env) (init store) ls = some s)
    (halong : Runs.Along (step env) (fun s l => publishesUnawaited s l = true) (init store) ls)
    (hstep : step env s (.exec i c) = some t) (hp : s.calls[i]? = some p) (hai : p.isUpdatePage = true)
    (hchanged : t.store ≠ s.store) :
    s.store.page.status = .draft ∧ t.store.page.status = .draft ∧ t.store.page.mcpVisible = false := by
  have hinv : WriteInv s :=
    Runs.inv_run_along (fun s l t hs hl h => waiting_step hs hl h) (writeInv_init store) halong hrun
  obtain ⟨p', st, q, hp', hq, rfl⟩ := Interleave.step_exec hstep
  obtain rfl : p' = p := Option.some.inj (hp'.symm.trans hp)
  obtain ⟨hfixed, hwaiting⟩ := hinv.calls i p' hp
  rcases stmt_cases hq with hsame | ⟨existing, input, options, spaceId, rfl | rfl, hrow, hpage⟩ |
    ⟨existing, content, rfl | rfl, hpage⟩
  · exact absurd hsame hchanged
  · obtain ⟨hstatus, hvisible, hversion⟩ := hfixed
    obtain ⟨v, hv⟩ := Option.isSome_iff_exists.mp hversion
    have hnow : v = s.store.page.version := (updatable_iff.mp hrow).2 v hv
    have hdraft := (hwaiting v hv).resolve_right fun hne => hne hnow.symm
    refine ⟨hdraft, ?_, ?_⟩
    · show st.page.status = .draft
      rw [hpage]
      show input.status.getD s.store.page.status = .draft
      rw [hstatus]
      exact hdraft
    · show st.page.mcpVisible = false
      rw [hpage]
      show input.mcpVisible.getD s.store.page.mcpVisible = false
      rw [hvisible]
      rfl
  · cases hai
  · exact hfixed.elim
  · cases hai

namespace WriteDemo

def context : KnowledgeAccessContext := ⟨"client", ["pages:update"], none⟩

def rewrite (expectedVersion : Nat) : WriteCall :=
  .updatePage context ⟨expectedVersion, none, some "by a model", none, none, none, "rewritten"⟩

def publish : WriteCall := .web (.update { UpdatePageInput.empty with status := some .published } ⟨none, none⟩)

/-- The call up to its write. -/
def upToWrite : List Label := [.start (rewrite 1), .exec 0 free, .exec 0 free, .exec 0 free, .exec 0 free]

/-- The client expects version 2. The page is published between the two reads of the call. -/
def publishedBetween : List Label :=
  [.start (rewrite 2), .exec 0 free, .start publish, .exec 1 free, .exec 1 free, .exec 1 free,
    .exec 0 free, .exec 0 free, .exec 0 free]

def writes (s : Sys) : Bool :=
  (s.calls[0]?.any WritePoint.isUpdatePage) &&
    (step Edits.Demo.toggleOnce s (.exec 0 free)).any fun t => t.store.page.content == "by a model"

end WriteDemo

theorem exists_of_writes {s : Sys} (h : WriteDemo.writes s = true) : ∃ p t, s.calls[0]? = some p ∧ p.isUpdatePage = true ∧
    step Edits.Demo.toggleOnce s (.exec 0 free) = some t ∧ t.store.page.content = "by a model" := by
  obtain ⟨hcall, hstep⟩ := Bool.and_eq_true_iff.mp h
  obtain ⟨p, hp, hai⟩ := (Option.any_eq_true _ _).mp hcall
  obtain ⟨t, ht, hcontent⟩ := (Option.any_eq_true _ _).mp hstep
  exact ⟨p, t, hp, hai, ht, beq_iff_eq.mp hcontent⟩

open WriteDemo in
/-- A client rewrites a draft of which it knows the version. -/
theorem drafts_only_rewrite : ∃ s t, Runs.run (step Edits.Demo.toggleOnce) (init Edits.Demo.store) upToWrite = some s ∧
    step Edits.Demo.toggleOnce s (.exec 0 free) = some t ∧ t.store.page.content = "by a model" ∧
    s.store.page.status = .draft ∧ t.store.page.status = .draft ∧ t.store.page.mcpVisible = false := by
  have hrun : (Runs.run (step Edits.Demo.toggleOnce) (init Edits.Demo.store) upToWrite).any fun s =>
      writes s && s.store.page.content == "- [ ] task" := by decide +kernel
  have halong : Runs.Along (step Edits.Demo.toggleOnce) (fun s l => publishesUnawaited s l = true) (init Edits.Demo.store)
      upToWrite := by decide +kernel
  obtain ⟨s, hs, h⟩ := (Option.any_eq_true _ _).mp hrun
  obtain ⟨hwrites, hcontent⟩ := Bool.and_eq_true_iff.mp h
  obtain ⟨p, t, hp, hai, hstep, hwritten⟩ := exists_of_writes hwrites
  have hchanged : t.store ≠ s.store := by
    intro hsame
    rw [hsame, beq_iff_eq.mp hcontent] at hwritten
    exact absurd hwritten (by decide)
  exact ⟨s, t, hs, hstep, hwritten,
    drafts_only Edits.Demo.toggleOnce Edits.Demo.store upToWrite s t 0 free p hs halong hstep hp hai hchanged⟩

open WriteDemo in
/-- A published page with the text of an AI client. -/
theorem published_overwritten : ∃ s t p,
    Runs.run (step Edits.Demo.toggleOnce) (init Edits.Demo.store) publishedBetween = some s ∧
    s.calls[0]? = some p ∧ p.isUpdatePage = true ∧ step Edits.Demo.toggleOnce s (.exec 0 free) = some t ∧
    s.store.page.status = .published ∧ s.store.page.content = "- [ ] task" ∧ t.store.page.content = "by a model" := by
  have hrun : (Runs.run (step Edits.Demo.toggleOnce) (init Edits.Demo.store) publishedBetween).any fun s =>
      writes s && (s.store.page.status == .published && s.store.page.content == "- [ ] task") := by decide +kernel
  obtain ⟨s, hs, h⟩ := (Option.any_eq_true _ _).mp hrun
  obtain ⟨hwrites, h⟩ := Bool.and_eq_true_iff.mp h
  obtain ⟨hstatus, hcontent⟩ := Bool.and_eq_true_iff.mp h
  obtain ⟨p, t, hp, hai, hstep, hwritten⟩ := exists_of_writes hwrites
  exact ⟨s, t, p, hs, hp, hai, hstep, beq_iff_eq.mp hstatus, beq_iff_eq.mp hcontent, hwritten⟩

end AdWiki.Knowledge
