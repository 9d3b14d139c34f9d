import AdWiki.Wiki.PageEdits
import Mathlib

/-!
# Updates with an expected version

Between two states with one version number the title is the same and the content differs by checkbox toggles only, as
long as no update without an expected version writes over a newer version than it read and no toggle over another
content than it read (`freshWrites`).

* `evolves_run`: how the row changes in such a run.
* `versioned_update`: what an update with an expected version overwrites, and what it does otherwise.
* `toggle_keeps_version`: a toggle changes the content under the version number.
-/

namespace AdWiki.Wiki.Edits

variable {env : Env} {st st' : Store} {i : Nat} {p q : Point} {c : Choice} {s t : Sys}

/-- Content that checkbox toggles lead to. -/
def Toggled (env : Env) : String → String → Prop :=
  Relation.ReflTransGen fun a b => ∃ checkboxIndex checked, env.toggleCheckboxInContent a checkboxIndex checked = some b

/-- How the row develops: to a higher version, or by toggles under the same version. -/
def Evolves (env : Env) (a b : Page) : Prop :=
  a.version < b.version ∨ b.version = a.version ∧ b.title = a.title ∧ Toggled env a.content b.content

theorem Evolves.refl (a : Page) : Evolves env a a := Or.inr ⟨rfl, rfl, .refl⟩

theorem Evolves.trans {a b d : Page} (h : Evolves env a b) (h' : Evolves env b d) : Evolves env a d := by
  rcases h with h | ⟨hv, ht, hc⟩
  · rcases h' with h' | ⟨hv', -, -⟩
    · exact Or.inl (Nat.lt_trans h h')
    · exact Or.inl (hv' ▸ h)
  · rcases h' with h' | ⟨hv', ht', hc'⟩
    · exact Or.inl (hv ▸ h')
    · exact Or.inr ⟨hv'.trans hv, ht'.trans ht, hc.trans hc'⟩

/-- No write over a row that has changed since it was read: an update without an expected version finds the version
it read, a toggle the content it read. -/
def freshWrites (s : Sys) : Label → Bool
  | .exec i _ =>
    match s.calls[i]? with
    | some (.updateTx existing _ options _) => options.expectedVersion.isSome || existing.version == s.store.page.version
    | some (.toggleWrite existing _) => existing == s.store.page.content
    | _ => true
  | .start _ => true

/-- What a call has checked before it writes. -/
def Checked (env : Env) : Point → Prop
  | .updateTx existing _ options _ => ∀ v, options.expectedVersion = some v → existing.version = v
  | .toggleWrite existing content =>
    ∃ checkboxIndex checked, env.toggleCheckboxInContent existing checkboxIndex checked = some content
  | _ => True

/-- The call has not ended. -/
def Point.running : Point → Bool
  | .done _ => false
  | _ => true

theorem updatable_iff {options : PageUpdateOptions} {row : Page} : updatable options row = true ↔
    row.deletedAt = none ∧ ∀ v, options.expectedVersion = some v → v = row.version := by
  cases hv : options.expectedVersion with
  | none => simp [updatable, hv]
  | some v => simp [updatable, hv]

/-- **One statement**: it refuses and changes nothing, moves on and changes nothing, or is one of the two writes. -/
theorem stmt_cases (h : stmt env st i p c = some (st', q)) :
    (st' = st ∧ ((∃ e, q = .done (.error e)) ∨ q.running = true ∧ Checked env q)) ∨
    (∃ existing input options spaceId, p = .updateTx existing input options spaceId ∧
      updatable options st.page = true ∧
      st' = ⟨existing.write input spaceId st.page, st.versions ++ [existing.snapshot input options.editorId]⟩ ∧
      q = .done (.ok (existing.write input spaceId st.page))) ∨
    ∃ existing content, p = .toggleWrite existing content ∧ st' = ⟨{ st.page with content := content }, st.versions⟩ ∧
      q = .done (.ok { st.page with content := content }) := by
  have hrefuse : ∀ {e : HttpError}, fail st e = some (st', q) →
      st' = st ∧ ((∃ e, q = .done (.error e)) ∨ q.running = true ∧ Checked env q) := by
    intro e h
    cases h
    exact ⟨rfl, Or.inl ⟨e, rfl⟩⟩
  cases p with
  | updateRead input options =>
    refine Or.inl ?_
    simp only [stmt] at h
    split at h
    · exact hrefuse h
    · cases h
      exact ⟨rfl, Or.inr ⟨rfl, trivial⟩⟩
  | updateCheck existing input options =>
    refine Or.inl ?_
    simp only [stmt] at h
    split at h
    · exact hrefuse h
    · split at h
      · next hnone =>
        cases h
        exact ⟨rfl, Or.inr ⟨rfl, fun v hv => by rw [hnone] at hv; cases hv⟩⟩
      · next expected hsome =>
        split at h
        · exact hrefuse h
        · next hversion =>
          cases h
          refine ⟨rfl, Or.inr ⟨rfl, fun v hv => ?_⟩⟩
          rw [hsome] at hv
          exact (not_not.mp hversion).trans (Option.some.inj hv)
  | updateTx existing input options spaceId =>
    simp only [stmt] at h
    split at h
    · exact Or.inl (hrefuse h)
    · split at h
      · next hrow =>
        cases h
        exact Or.inr (Or.inl ⟨existing, input, options, spaceId, rfl, hrow, rfl, rfl⟩)
      · exact Or.inl (hrefuse h)
  | toggleRead checkboxIndex checked =>
    refine Or.inl ?_
    simp only [stmt] at h
    split at h
    · exact hrefuse h
    · cases h
      exact ⟨rfl, Or.inr ⟨rfl, trivial⟩⟩
  | toggleCheck existing checkboxIndex checked =>
    refine Or.inl ?_
    simp only [stmt] at h
    split at h
    · exact hrefuse h
    · split at h
      · exact hrefuse h
      · next content hcontent =>
        cases h
        exact ⟨rfl, Or.inr ⟨rfl, checkboxIndex, checked, hcontent⟩⟩
  | toggleWrite existing content =>
    simp only [stmt] at h
    split at h
    · exact Or.inl (hrefuse h)
    · cases h
      exact Or.inr (Or.inr ⟨existing, content, rfl, rfl, rfl⟩)
  | done result => cases h

/-! ## Every run -/

/-- The calls have checked what they write. -/
def EditInv (env : Env) : Sys → Prop := Interleave.Inv (fun _ => True) fun _ _ p => Checked env p

theorem editInv_init (store : Store) : EditInv env (init store) := ⟨trivial, fun i p hp => by simp [init] at hp⟩

theorem editInv_step (s : Sys) (l : Label) (t : Sys) (hs : EditInv env s) (h : step env s l = some t) :
    EditInv env t := by
  refine Interleave.inv_step (P := fun _ _ => True) ?_ ?_ l hs trivial h
  · intro i st r _
    cases r <;> trivial
  · intro s i p c st q hs _ _ hq
    refine ⟨trivial, ?_, fun j p' _ hp' => hs.calls j p' hp'⟩
    rcases stmt_cases hq with ⟨-, ⟨e, rfl⟩ | ⟨-, hchecked⟩⟩ | ⟨_, _, _, _, -, -, -, rfl⟩ | ⟨_, _, -, -, rfl⟩
    · trivial
    · exact hchecked
    · trivial
    · trivial

/-- The row develops with every step that meets the condition. -/
theorem evolves_step {l : Label} (hs : EditInv env s) (hfresh : freshWrites s l = true) (h : step env s l = some t) :
    Evolves env s.store.page t.store.page := by
  cases l with
  | start r =>
    rw [Interleave.step_start h]
    exact .refl _
  | exec i c =>
    obtain ⟨p, st, q, hp, hq, rfl⟩ := Interleave.step_exec h
    have hchecked := hs.calls i p hp
    simp only [freshWrites, hp] at hfresh
    rcases stmt_cases hq with ⟨rfl, -⟩ | ⟨existing, input, options, spaceId, rfl, hrow, rfl, -⟩ |
      ⟨existing, content, rfl, rfl, -⟩
    · exact .refl _
    -- the version that was read is the version of the row, so the new one is higher
    · refine Or.inl ?_
      have hversion : existing.version = s.store.page.version := by
        cases hv : options.expectedVersion with
        | none => simpa [hv] using hfresh
        | some v => exact (hchecked v hv).trans ((updatable_iff.mp hrow).2 v hv)
      simp [hversion]
    · obtain ⟨checkboxIndex, checked, htoggle⟩ := hchecked
      rw [beq_iff_eq.mp hfresh] at htoggle
      exact Or.inr ⟨rfl, rfl, .single ⟨checkboxIndex, checked, htoggle⟩⟩

theorem evolves_run {ls : List Label} (hs : EditInv env s)
    (hfresh : Runs.Along (step env) (fun s l => freshWrites s l = true) s ls)
    (h : Runs.run (step env) s ls = some t) : EditInv env t ∧ Evolves env s.store.page t.store.page := by
  refine Runs.inv_run_along (I := fun t => EditInv env t ∧ Evolves env s.store.page t.store.page) ?_
    ⟨hs, .refl _⟩ hfresh h
  rintro u l v ⟨hu, he⟩ hl hv
  exact ⟨editInv_step u l v hu hv, he.trans (evolves_step hu hl hv)⟩

/-! ## Updates with an expected version -/

/-- The call is an update that expects the version `v`. -/
def Point.expects (v : Nat) : Point → Prop
  | .updateRead _ options => options.expectedVersion = some v
  | .updateCheck _ _ options => options.expectedVersion = some v
  | .updateTx _ _ options _ => options.expectedVersion = some v
  | _ => False

/-- The version that the call compares next: that of the row it has read, or that of the row it writes. -/
def Point.comparing (row : Page) : Point → Option Nat
  | .updateCheck existing _ _ => some existing.version
  | .updateTx _ _ _ _ => some row.version
  | _ => none

/-- **Optimistic locking.** In the runs whose writes are fresh, let `s₁` be any state on the way to `s`. An update
that expects the version of `s₁` and succeeds in `s` overwrites the title of `s₁`, and its content up to toggles. If a
step of such an update does not succeed, it changes nothing; and where the version it compares is another one and no
check on other tables refuses it, it fails with a conflict. -/
theorem versioned_update {store : Store} {ls₁ ls₂ : List Label} {s₁ s t : Sys} {i : Nat} {c : Choice} {p q : Point}
    {v : Nat} (h₁ : Runs.run (step env) (init store) ls₁ = some s₁) (h₂ : Runs.run (step env) s₁ ls₂ = some s)
    (hfresh : Runs.Along (step env) (fun s l => freshWrites s l = true) (init store) (ls₁ ++ ls₂))
    (hstep : step env s (.exec i c) = some t) (hp : s.calls[i]? = some p) (hq : t.calls[i]? = some q)
    (hexpects : p.expects v) :
    (∀ page, q = .done (.ok page) → s₁.store.page.version = v →
      s.store.page.version = v ∧ s.store.page.title = s₁.store.page.title ∧
        Toggled env s₁.store.page.content s.store.page.content ∧ t.store.page = page) ∧
    ((∀ page, q ≠ .done (.ok page)) → t.store = s.store) ∧
    (∀ actual, p.comparing s.store.page = some actual → actual ≠ v → c.refused = none →
      ∃ message, q = .done (.error (.conflict message))) := by
  obtain ⟨hfresh₁, hfresh₂⟩ := Runs.along_append.mp hfresh
  obtain ⟨hinv₁, -⟩ := evolves_run (editInv_init store) hfresh₁ h₁
  obtain ⟨hinv, hev⟩ := evolves_run hinv₁ (hfresh₂ s₁ h₁) h₂
  obtain ⟨p', st, q', hp', hq', rfl⟩ := Interleave.step_exec hstep
  obtain rfl : p' = p := Option.some.inj (hp'.symm.trans hp)
  have hlt : i < s.calls.length := (List.getElem?_eq_some_iff.mp hp).1
  rw [List.getElem?_set_self hlt] at hq
  obtain rfl : q' = q := Option.some.inj hq
  refine ⟨fun page hpage hv => ?_, fun hno => ?_, fun actual hactual hversion hfree => ?_⟩
  · rcases stmt_cases hq' with ⟨-, ⟨e, he⟩ | ⟨hrunning, -⟩⟩ | ⟨existing, input, options, spaceId, rfl, hrow, rfl, he⟩ |
      ⟨existing, content, rfl, -, -⟩
    · rw [hpage] at he
      cases he
    · rw [hpage] at hrunning
      cases hrunning
    -- the row has the version of `s₁`, so only toggles lie between
    · have hnow : s.store.page.version = v := ((updatable_iff.mp hrow).2 v hexpects).symm
      rcases hev with hlt | ⟨-, htitle, hcontent⟩
      · omega
      · rw [hpage] at he
        cases he
        exact ⟨hnow, htitle, hcontent, rfl⟩
    · exact hexpects.elim
  · rcases stmt_cases hq' with ⟨rfl, -⟩ | ⟨_, _, _, _, -, -, -, he⟩ | ⟨_, _, -, -, he⟩
    · rfl
    · exact absurd he (hno _)
    · exact absurd he (hno _)
  · cases p' with
    | updateCheck existing input options =>
      have hexpected : options.expectedVersion = some v := hexpects
      obtain rfl : existing.version = actual := Option.some.inj hactual
      simp only [stmt, hfree, hexpected, fail, ne_eq, hversion, not_false_eq_true, if_true, Option.some.injEq,
        Prod.mk.injEq] at hq'
      exact ⟨_, hq'.2.symm⟩
    | updateTx existing input options spaceId =>
      obtain rfl : s.store.page.version = actual := Option.some.inj hactual
      have hblocked : updatable options s.store.page = false := by
        rw [Bool.eq_false_iff]
        exact fun hrow => hversion ((updatable_iff.mp hrow).2 v hexpects).symm
      have hsome : options.expectedVersion.isSome = true := Option.isSome_iff_exists.mpr ⟨v, hexpects⟩
      simp only [stmt, hfree, hblocked, hsome, fail, Bool.false_eq_true, if_false, if_true, Option.some.injEq,
        Prod.mk.injEq] at hq'
      exact ⟨_, hq'.2.symm⟩
    | _ => cases hactual

/-! ## One page -/

namespace Demo

/-- The source's function on the one content it is called with. -/
def toggleOnce : Env where
  toggleCheckboxInContent content checkboxIndex checked :=
    if content = "- [ ] task" ∧ checkboxIndex = 0 ∧ checked then some "- [x] task" else none

def store : Store where
  page := ⟨"page", "Title", "title", .page, "- [ ] task", none, .draft, false, false, 1, 0, none, none, "space", "author",
    none, none⟩
  versions := []

def free : Choice := ⟨none, "space"⟩

def save : UpdatePageInput := { UpdatePageInput.empty with content := some "text" }

/-- A toggle, then an update that expects version 1, up to its write. -/
def toggleThenSave : List Label :=
  [.start (.toggleCheckbox 0 true), .exec 0 free, .exec 0 free, .exec 0 free,
    .start (.update save ⟨some 1, none⟩), .exec 1 free, .exec 1 free]

/-- The next step of call 1 is its write, and succeeds. -/
def succeeds (s : Sys) : Bool :=
  match s.calls[1]?, (step toggleOnce s (.exec 1 free)).bind fun t => t.calls[1]? with
  | some (Point.updateTx _ _ options _), some (Point.done (.ok _)) => options.expectedVersion == some 1
  | _, _ => false

end Demo

theorem exists_of_succeeds {s : Sys} (h : Demo.succeeds s = true) : ∃ p t page,
    s.calls[1]? = some p ∧ p.expects 1 ∧ step Demo.toggleOnce s (.exec 1 Demo.free) = some t ∧
      t.calls[1]? = some (.done (.ok page)) := by
  unfold Demo.succeeds at h
  split at h
  · next existing input options spaceId page hp hq =>
    obtain ⟨t, ht, hq⟩ := Option.bind_eq_some_iff.mp hq
    exact ⟨_, t, page, hp, beq_iff_eq.mp h, ht, hq⟩
  · cases h

/-- The update overwrites what the page had at version 1, up to the toggle. -/
theorem versioned_update_after_toggle : ∃ s,
    Runs.run (step Demo.toggleOnce) (init Demo.store) Demo.toggleThenSave = some s ∧
      s.store.page.title = "Title" ∧ Toggled Demo.toggleOnce "- [ ] task" s.store.page.content := by
  have hrun :
    (Runs.run (step Demo.toggleOnce) (init Demo.store) Demo.toggleThenSave).any Demo.succeeds := by decide +kernel
  have hfresh : Runs.Along (step Demo.toggleOnce) (fun s l => freshWrites s l = true) (init Demo.store)
      ([] ++ Demo.toggleThenSave) := by
    decide +kernel
  obtain ⟨s, hs, hsucceeds⟩ := (Option.any_eq_true _ _).mp hrun
  obtain ⟨p, t, page, hp, hexpects, hstep, hq⟩ := exists_of_succeeds hsucceeds
  have hstart : Runs.run (step Demo.toggleOnce) (init Demo.store) [] = some (init Demo.store) := rfl
  obtain ⟨-, htitle, hcontent, -⟩ := (versioned_update hstart hs hfresh hstep hp hq hexpects).1 page rfl rfl
  exact ⟨s, hs, htitle, hcontent⟩

/-- The page had another content when it was at version 1. -/
theorem toggle_keeps_version : ∃ s t p page,
    Runs.run (step Demo.toggleOnce) (init Demo.store) Demo.toggleThenSave = some s ∧
      step Demo.toggleOnce s (.exec 1 Demo.free) = some t ∧ s.calls[1]? = some p ∧ p.expects 1 ∧
      t.calls[1]? = some (.done (.ok page)) ∧ (init Demo.store).store.page.version = 1 ∧
      s.store.page.content ≠ (init Demo.store).store.page.content := by
  have hrun : (Runs.run (step Demo.toggleOnce) (init Demo.store) Demo.toggleThenSave).any fun s =>
      Demo.succeeds s && s.store.page.content == "- [x] task" := by
    decide +kernel
  obtain ⟨s, hs, hboth⟩ := (Option.any_eq_true _ _).mp hrun
  obtain ⟨hsucceeds, hcontent⟩ := Bool.and_eq_true_iff.mp hboth
  obtain ⟨p, t, page, hp, hexpects, hstep, hq⟩ := exists_of_succeeds hsucceeds
  refine ⟨s, t, p, page, hs, hstep, hp, hexpects, hq, rfl, ?_⟩
  rw [beq_iff_eq.mp hcontent]
  decide

end AdWiki.Wiki.Edits
