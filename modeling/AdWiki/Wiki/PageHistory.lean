import AdWiki.Wiki.OptimisticLock

/-!
# The history of a page

`PagesService.update` computes the history row and the next version number from the row that it has read before its
transaction. Runs of updates of one page keep a complete history if and only if each successful update still finds the
version that it read (`writesCurrent`).

* `historyInv_step`: what one step with that condition keeps.
* `history_complete_iff`: the condition is exact, over whole runs.
* `saved_twice`: two updates without an expected version lose a text.
-/

namespace AdWiki.Wiki.Edits

variable {env : Env} {st st' : Store} {i : Nat} {p q : Point} {c : Choice} {s t u : Sys} {l : Label} {ls : List Label}

/-- No toggle begins. -/
def onlyUpdates : Label → Bool
  | .start (.toggleCheckbox _ _) => false
  | _ => true

/-- If the statement is the transaction of an update and goes through, the page has the version that the update read. -/
def writesCurrent (s : Sys) : Label → Bool
  | .exec i c =>
    match s.calls[i]? with
    | some (.updateTx existing _ options _) =>
      c.refused.isSome || !updatable options s.store.page || existing.version == s.store.page.version
    | _ => true
  | .start _ => true

/-- The condition on the steps of a run of updates. -/
def Current (s : Sys) (l : Label) : Prop := writesCurrent s l = true ∧ onlyUpdates l = true

/-- The history rows have different version numbers, all below the version of the page. -/
structure Numbered (st : Store) : Prop where
  distinct : (st.versions.map (·.version)).Nodup
  below : ∀ row ∈ st.versions, row.version < st.page.version

/-- The text of the page in `st` is still there, or in the history row of its version. -/
def Keeps (st st' : Store) : Prop :=
  st' = st ∨ ∃ row ∈ st'.versions, row.version = st.page.version ∧ row.title = st.page.title ∧
    row.content = st.page.content

/-- What a complete history is, of the run of `ls` from a page and its history. -/
structure HistoryComplete (env : Env) (store : Store) (ls : List Label) : Prop where
  increases : ∀ pre i c post s t page, ls = pre ++ .exec i c :: post → Runs.run (step env) (init store) pre = some s →
    step env s (.exec i c) = some t → t.calls[i]? = some (.done (.ok page)) →
    s.store.page.version < t.store.page.version
  distinct : Runs.Throughout (step env) (fun s => (s.store.versions.map (·.version)).Nodup) (init store) ls
  stored : ∀ pre mid post s t, ls = pre ++ mid ++ post → Runs.run (step env) (init store) pre = some s →
    Runs.run (step env) s mid = some t → Keeps s.store t.store

/-! ## One step -/

/-- A call of an update, whose row is the page's row if that still has the version. -/
def ReadsPage (page : Page) : Point → Prop
  | .updateRead _ _ => True
  | .updateCheck existing _ _ => existing.version ≤ page.version ∧ (existing.version = page.version → existing = page)
  | .updateTx existing _ _ _ => existing.version ≤ page.version ∧ (existing.version = page.version → existing = page)
  | .done _ => True
  | _ => False

theorem ReadsPage.mono {page page' : Page} (h : ReadsPage page p) (hlt : page.version < page'.version) :
    ReadsPage page' p := by
  cases p with
  | updateCheck existing input options => exact ⟨by have := h.1; omega, fun he => by have := h.1; omega⟩
  | updateTx existing input options spaceId => exact ⟨by have := h.1; omega, fun he => by have := h.1; omega⟩
  | updateRead input options => trivial
  | done result => trivial
  | toggleRead checkboxIndex checked => exact h
  | toggleCheck existing checkboxIndex checked => exact h
  | toggleWrite existing content => exact h

/-- One statement of an update: the store stays, or the row that was read goes into the history and the page gets the
next version. -/
theorem stmt_update (hreads : ReadsPage st.page p) (h : stmt env st i p c = some (st', q)) :
    (st' = st ∧ ReadsPage st.page q ∧ ∀ page, q ≠ .done (.ok page)) ∨
    ∃ existing input options spaceId, p = .updateTx existing input options spaceId ∧ c.refused = none ∧
      updatable options st.page = true ∧
      st' = ⟨existing.write input spaceId st.page, st.versions ++ [existing.snapshot input options.editorId]⟩ ∧
      q = .done (.ok (existing.write input spaceId st.page)) := by
  have hrefuse : ∀ {e : HttpError}, fail st e = some (st', q) →
      st' = st ∧ ReadsPage st.page q ∧ ∀ page, q ≠ .done (.ok page) := by
    intro e h
    cases h
    exact ⟨rfl, trivial, fun page hpage => by cases hpage⟩
  cases p with
  | updateRead input options =>
    refine Or.inl ?_
    simp only [stmt] at h
    split at h
    · exact hrefuse h
    · cases h
      exact ⟨rfl, ⟨Nat.le_refl _, fun _ => rfl⟩, fun page hpage => by cases hpage⟩
  | updateCheck existing input options =>
    refine Or.inl ?_
    simp only [stmt] at h
    split at h
    · exact hrefuse h
    · split at h
      · cases h
        exact ⟨rfl, hreads, fun page hpage => by cases hpage⟩
      · split at h
        · exact hrefuse h
        · cases h
          exact ⟨rfl, hreads, fun page hpage => by cases hpage⟩
  | updateTx existing input options spaceId =>
    simp only [stmt] at h
    split at h
    · exact Or.inl (hrefuse h)
    · next hfree =>
      split at h
      · next hrow =>
        cases h
        exact Or.inr ⟨existing, input, options, spaceId, rfl, hfree, hrow, rfl, rfl⟩
      · exact Or.inl (hrefuse h)
  | toggleRead checkboxIndex checked => exact hreads.elim
  | toggleCheck existing checkboxIndex checked => exact hreads.elim
  | toggleWrite existing content => exact hreads.elim
  | done result => cases h

/-- The invariant of runs whose updates find the version that they read. -/
def HistoryInv : Sys → Prop := Interleave.Inv Numbered fun _ st p => ReadsPage st.page p

theorem historyInv_init {store : Store} (h : Numbered store) : HistoryInv (init store) :=
  ⟨h, fun i p hp => by simp [init] at hp⟩

/-- The history after the row of the page's version is added. -/
theorem Numbered.write {existing : Page} {input : UpdatePageInput} {spaceId : String} {editorId : Option String}
    (h : Numbered st) (hversion : existing.version = st.page.version) :
    Numbered ⟨existing.write input spaceId st.page, st.versions ++ [existing.snapshot input editorId]⟩ := by
  have hsnapshot : (existing.snapshot input editorId).version = st.page.version := hversion
  constructor
  · simp only [List.map_append, List.map_cons, List.map_nil, hsnapshot]
    refine List.nodup_append.mpr ⟨h.distinct, by simp, ?_⟩
    intro n hn m hm
    obtain ⟨row, hrow, rfl⟩ := List.mem_map.mp hn
    obtain rfl := List.mem_singleton.mp hm
    exact Nat.ne_of_lt (h.below row hrow)
  · intro row hrow
    show row.version < existing.version + 1
    rcases List.mem_append.mp hrow with hrow | hrow
    · have := h.below row hrow
      omega
    · obtain rfl := List.mem_singleton.mp hrow
      exact Nat.lt_succ_of_le (Nat.le_of_eq rfl)

/-- What one step with the condition does to the store. -/
theorem current_step (hs : HistoryInv s) (hcurrent : writesCurrent s l = true) (h : step env s l = some t) :
    t.store = s.store ∨ ∃ input spaceId editorId,
      t.store =
        ⟨s.store.page.write input spaceId s.store.page, s.store.versions ++ [s.store.page.snapshot input editorId]⟩ := by
  cases l with
  | start r => exact Or.inl (by rw [Interleave.step_start h])
  | exec i c =>
    obtain ⟨p, st, q, hp, hq, rfl⟩ := Interleave.step_exec h
    rcases stmt_update (hs.calls i p hp) hq with ⟨rfl, -, -⟩ |
      ⟨existing, input, options, spaceId, rfl, hfree, hrow, rfl, -⟩
    · exact Or.inl rfl
    · simp only [writesCurrent, hp, hfree, hrow, Option.isSome_none, Bool.not_true, Bool.or_self, Bool.false_or,
        beq_iff_eq] at hcurrent
      obtain rfl : existing = s.store.page := (hs.calls i _ hp).2 hcurrent
      exact Or.inr ⟨input, spaceId, options.editorId, rfl⟩

theorem historyInv_step (s : Sys) (l : Label) (t : Sys) (hs : HistoryInv s) (hcurrent : Current s l)
    (h : step env s l = some t) : HistoryInv t := by
  refine Interleave.inv_step_label (P := Current) ?_ ?_ l hs hcurrent h
  · intro s i r hlabel _
    cases r with
    | update input options => trivial
    | toggleCheckbox checkboxIndex checked => cases hlabel.2
  · intro s i p c st q hs hlabel hp hq
    rcases stmt_update (hs.calls i p hp) hq with ⟨rfl, hreads, -⟩ |
      ⟨existing, input, options, spaceId, rfl, hfree, hrow, rfl, rfl⟩
    · exact ⟨hs.store, hreads, fun j p' _ hp' => hs.calls j p' hp'⟩
    · have hversion : existing.version = s.store.page.version := by
        simpa [writesCurrent, hp, hfree, hrow] using hlabel.1
      refine ⟨hs.store.write hversion, trivial, fun j p' _ hp' => ReadsPage.mono (hs.calls j p' hp') ?_⟩
      rw [Page.write_version, hversion]
      exact Nat.lt_succ_self _

/-! ## Whole runs -/

theorem Keeps.refl (st : Store) : Keeps st st := Or.inl rfl

/-- History rows stay, so a text that is kept stays so. -/
theorem Keeps.step (hkeeps : Keeps u.store s.store) (hs : HistoryInv s) (hcurrent : writesCurrent s l = true)
    (h : step env s l = some t) : Keeps u.store t.store := by
  rcases current_step hs hcurrent h with heq | ⟨input, spaceId, editorId, heq⟩
  · rw [heq]
    exact hkeeps
  · rw [heq]
    rcases hkeeps with hsame | ⟨row, hrow, hfields⟩
    · exact Or.inr ⟨_, List.mem_append_right _ (List.mem_singleton_self _), by rw [← hsame]; exact ⟨rfl, rfl, rfl⟩⟩
    · exact Or.inr ⟨row, List.mem_append_left _ hrow, hfields⟩

theorem historyInv_run (hs : HistoryInv s) (hcurrent : Runs.Along (step env) Current s ls)
    (h : Runs.run (step env) s ls = some t) : HistoryInv t :=
  Runs.inv_run_along historyInv_step hs hcurrent h

theorem keeps_run (hs : HistoryInv s) (hcurrent : Runs.Along (step env) Current s ls)
    (h : Runs.run (step env) s ls = some t) : Keeps s.store t.store := by
  refine (Runs.inv_run_along (I := fun t => HistoryInv t ∧ Keeps s.store t.store) ?_ ⟨hs, .refl _⟩ hcurrent h).2
  rintro u l v ⟨hu, hkeeps⟩ hl hv
  exact ⟨historyInv_step u l v hu hl hv, hkeeps.step hu hl.1 hv⟩

/-- A successful update whose condition holds writes a higher version, and one whose condition fails does not. -/
theorem increases_iff {page : Page} (hs : HistoryInv s) (h : step env s (.exec i c) = some t)
    (hdone : t.calls[i]? = some (.done (.ok page))) :
    s.store.page.version < t.store.page.version ↔ writesCurrent s (.exec i c) = true := by
  obtain ⟨p, st, q, hp, hq, rfl⟩ := Interleave.step_exec h
  have hlt : i < s.calls.length := (List.getElem?_eq_some_iff.mp hp).1
  rw [List.getElem?_set_self hlt] at hdone
  rcases stmt_update (hs.calls i p hp) hq with ⟨-, -, hno⟩ | ⟨existing, input, options, spaceId, rfl, hfree, hrow, rfl, -⟩
  · exact absurd (Option.some.inj hdone) (hno page)
  · have hread : existing.version ≤ s.store.page.version := (hs.calls i _ hp).1
    simp only [writesCurrent, hp, hfree, hrow, Page.write_version, Option.isSome_none, Bool.not_true, Bool.or_self,
      Bool.false_or, beq_iff_eq]
    omega

/-- A step that does not meet the condition is a successful update. -/
theorem done_of_not_current (hs : HistoryInv s) (h : step env s l = some t) (hnot : ¬ writesCurrent s l = true) :
    ∃ i c page, l = .exec i c ∧ t.calls[i]? = some (.done (.ok page)) := by
  cases l with
  | start r => exact absurd rfl hnot
  | exec i c =>
    obtain ⟨p, st, q, hp, hq, rfl⟩ := Interleave.step_exec h
    have hlt : i < s.calls.length := (List.getElem?_eq_some_iff.mp hp).1
    rcases stmt_update (hs.calls i p hp) hq with ⟨rfl, -, hno⟩ | ⟨existing, input, options, spaceId, rfl, -, -, rfl, rfl⟩
    · simp only [writesCurrent, hp] at hnot
      cases p with
      | updateTx existing input options spaceId =>
        obtain ⟨⟨hfree, hrow⟩, -⟩ : (c.refused = none ∧ updatable options s.store.page = true) ∧
            ¬ existing.version = s.store.page.version := by
          simpa using hnot
        simp only [stmt, hfree, hrow, if_true] at hq
        exact absurd (Prod.mk.inj (Option.some.inj hq)).2.symm (hno _)
      | _ => exact absurd rfl hnot
    · exact ⟨i, c, _, rfl, List.getElem?_set_self hlt⟩

/-- **The history is complete exactly in the runs whose updates find the version that they read.** -/
theorem history_complete_iff {store : Store} (hstore : Numbered store) (hupdates : ∀ l ∈ ls, onlyUpdates l = true)
    (hrun : Runs.run (step env) (init store) ls = some t) :
    HistoryComplete env store ls ↔ Runs.Along (step env) (fun s l => writesCurrent s l = true) (init store) ls := by
  have hinit : HistoryInv (init store) := historyInv_init hstore
  constructor
  · intro hcomplete
    refine Runs.along_of_prefixes fun pre l post s hsplit hpre hs => ?_
    have hinv : HistoryInv s := by
      refine historyInv_run hinit (Runs.along_and_labels hpre fun l hl => hupdates l ?_) hs
      rw [hsplit]
      exact List.mem_append_left _ hl
    rw [hsplit] at hrun
    obtain ⟨s', hs', hrest⟩ := Runs.run_append.mp hrun
    obtain rfl : s = s' := Option.some.inj (hs.symm.trans hs')
    obtain ⟨v, hv, -⟩ := Runs.run_cons.mp hrest
    by_contra hnot
    obtain ⟨i, c, page, rfl, hdone⟩ := done_of_not_current hinv hv hnot
    exact hnot ((increases_iff hinv hv hdone).mp (hcomplete.increases pre i c post s v page hsplit hs hv hdone))
  · intro hcurrent
    have hall : Runs.Along (step env) Current (init store) ls := Runs.along_and_labels hcurrent hupdates
    refine ⟨fun pre i c post s v page hsplit hs hv hdone => ?_, fun pre post s hsplit hs => ?_,
      fun pre mid post s v hsplit hs hv => ?_⟩
    · rw [hsplit] at hall
      obtain ⟨hpre, hrest⟩ := Runs.along_append.mp hall
      exact (increases_iff (historyInv_run hinit hpre hs) hv hdone).mpr (hrest s hs).1.1
    · rw [hsplit] at hall
      exact (historyInv_run hinit (Runs.along_append.mp hall).1 hs).store.distinct
    · rw [hsplit] at hall
      obtain ⟨hpre, hmid⟩ := Runs.along_append.mp (Runs.along_append.mp hall).1
      exact keeps_run (historyInv_run hinit hpre hs) (hmid s hs) hv

/-! ## Two updates that have read the same version -/

namespace Demo

def saveAs (content : String) : Call := .update { UpdatePageInput.empty with content := some content } ⟨none, none⟩

/-- One update after the other. -/
def saveTwice : List Label :=
  [.start (saveAs "first"), .exec 0 free, .exec 0 free, .exec 0 free,
    .start (saveAs "second"), .exec 1 free, .exec 1 free, .exec 1 free]

/-- Both updates read before either writes. -/
def saveAcross : List Label :=
  [.start (saveAs "first"), .start (saveAs "second"), .exec 0 free, .exec 1 free, .exec 0 free, .exec 1 free,
    .exec 0 free, .exec 1 free]

theorem numbered_store : Numbered store := ⟨List.nodup_nil, fun _ hrow => by cases hrow⟩

end Demo

/-- After two updates in turn both old texts are in the history. -/
theorem history_complete_in_turn : HistoryComplete Demo.toggleOnce Demo.store Demo.saveTwice := by
  have hrun : (Runs.run (step Demo.toggleOnce) (init Demo.store) Demo.saveTwice).isSome := by decide +kernel
  obtain ⟨t, ht⟩ := Option.isSome_iff_exists.mp hrun
  exact (history_complete_iff Demo.numbered_store (by decide) ht).mpr (by decide +kernel)

/-- The second update, which has read version 1 too, adds a second row with number 1, and the text "first" of version 2
is nowhere. -/
theorem saved_twice : ¬ HistoryComplete Demo.toggleOnce Demo.store Demo.saveAcross ∧ ∃ t,
    Runs.run (step Demo.toggleOnce) (init Demo.store) Demo.saveAcross = some t ∧
      t.store.versions.map (·.version) = [1, 1] ∧ t.store.page.version = 2 ∧ t.store.page.content = "second" ∧
      ∀ row ∈ t.store.versions, row.content ≠ "first" := by
  have hrun : (Runs.run (step Demo.toggleOnce) (init Demo.store) Demo.saveAcross).any fun t =>
      t.store.versions.map (·.version) == [1, 1] && t.store.page.version == 2 && t.store.page.content == "second" &&
        t.store.versions.all fun row => row.content != "first" := by
    decide +kernel
  obtain ⟨t, ht, hall⟩ := (Option.any_eq_true _ _).mp hrun
  simp only [Bool.and_eq_true, beq_iff_eq, List.all_eq_true, bne_iff_ne] at hall
  obtain ⟨⟨⟨hnumbers, hversion⟩, hcontent⟩, hlost⟩ := hall
  refine ⟨fun hcomplete => ?_, t, ht, hnumbers, hversion, hcontent, hlost⟩
  have hdistinct : (t.store.versions.map (·.version)).Nodup := hcomplete.distinct Demo.saveAcross [] t (by simp) ht
  rw [hnumbers] at hdistinct
  exact absurd hdistinct (by decide)

end AdWiki.Wiki.Edits
