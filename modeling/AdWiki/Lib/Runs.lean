import Mathlib

/-!
# Runs of a labelled system

A system is a partial function `step : σ → α → Option σ`: the label `a` says which step is taken and with which
outside choices, and `none` says that the step is not enabled. A run is the state after a list of labels (`run`).

* `inv_run`: an invariant that every enabled step keeps holds after every run.
* `Along step P s as`: every step of the run of `as` from `s` meets the condition `P` in the state before it.
  `inv_run_along` is the rule for invariants that are kept only by such steps.
* `throughout_iff_along`, `throughout_iff_along_inv`: a condition that says exactly which steps keep an invariant, says
  exactly which runs do.
* `after`: what a step establishes and every later step keeps, holds at the end of the run.
-/

namespace Runs

variable {σ α : Type*}

section Defs

variable (step : σ → α → Option σ)

/-- The state after a list of labels, if every step is enabled. -/
def run : σ → List α → Option σ
  | s, [] => some s
  | s, a :: as => (step s a).bind fun t => run t as

/-- Every step of the run meets `P` in the state before it. -/
def Along (P : σ → α → Prop) : σ → List α → Prop
  | _, [] => True
  | s, a :: as => P s a ∧ ∀ t, step s a = some t → Along P t as

/-- Every state on the way has `I`. -/
def Throughout (I : σ → Prop) (s : σ) (as : List α) : Prop :=
  ∀ pre post t, as = pre ++ post → run step s pre = some t → I t

end Defs

/-- Along a given run a decidable condition can be checked. -/
instance decidableAlong (step : σ → α → Option σ) (P : σ → α → Prop) [∀ s a, Decidable (P s a)] :
    ∀ s as, Decidable (Along step P s as)
  | _, [] => isTrue trivial
  | s, a :: as =>
    have : Decidable (∀ t, step s a = some t → Along step P t as) :=
      match step s a with
      | none => isTrue fun _ ht => nomatch ht
      | some u =>
        have := decidableAlong step P u as
        decidable_of_iff (Along step P u as) ⟨fun hu _ ht => Option.some.inj ht ▸ hu, fun hu => hu u rfl⟩
    instDecidableAnd

variable {step : σ → α → Option σ} {P : σ → α → Prop} {s t u : σ} {a : α} {as bs : List α}

@[simp] theorem run_nil : run step s [] = some s := rfl

theorem run_cons : run step s (a :: as) = some u ↔ ∃ t, step s a = some t ∧ run step t as = some u := by
  simp only [run, Option.bind_eq_some_iff]

theorem run_append : run step s (as ++ bs) = some u ↔ ∃ t, run step s as = some t ∧ run step t bs = some u := by
  induction as generalizing s with
  | nil => simp
  | cons a as ih =>
    simp only [List.cons_append, run_cons, ih]
    constructor
    · rintro ⟨t, ht, v, hv, hu⟩
      exact ⟨v, ⟨t, ht, hv⟩, hu⟩
    · rintro ⟨v, ⟨t, ht, hv⟩, hu⟩
      exact ⟨t, ht, v, hv, hu⟩

theorem run_snoc : run step s (as ++ [a]) = some u ↔ ∃ t, run step s as = some t ∧ step t a = some u := by
  simp [run_append, run_cons]

/-- The condition on a run splits at every state on the way. -/
theorem along_append : Along step P s (as ++ bs) ↔
    Along step P s as ∧ ∀ t, run step s as = some t → Along step P t bs := by
  induction as generalizing s with
  | nil => simp [Along]
  | cons a as ih =>
    simp only [List.cons_append, Along, ih]
    constructor
    · rintro ⟨ha, hs⟩
      refine ⟨⟨ha, fun t ht => (hs t ht).1⟩, fun t hr => ?_⟩
      obtain ⟨v, hv, hr⟩ := run_cons.mp hr
      exact (hs v hv).2 t hr
    · rintro ⟨⟨ha, hs⟩, hb⟩
      exact ⟨ha, fun t ht => ⟨hs t ht, fun v hv => hb v (run_cons.mpr ⟨t, ht, hv⟩)⟩⟩

/-- A condition that always holds, holds along every run. -/
theorem along_of_forall (h : ∀ s a, P s a) : ∀ (s : σ) (as : List α), Along step P s as
  | _, [] => trivial
  | s, a :: as => ⟨h s a, fun t _ => along_of_forall h t as⟩

/-- A condition on the labels alone may be added. -/
theorem along_and_labels {Q : α → Prop} (hP : Along step P s as) (hQ : ∀ a ∈ as, Q a) :
    Along step (fun s a => P s a ∧ Q a) s as := by
  induction as generalizing s with
  | nil => trivial
  | cons a as ih =>
    exact ⟨⟨hP.1, hQ a List.mem_cons_self⟩, fun t ht => ih (hP.2 t ht) fun b hb => hQ b (List.mem_cons_of_mem a hb)⟩

/-- A condition that follows, step by step, from itself along the steps before. -/
theorem along_of_prefixes
    (h : ∀ pre a post t, as = pre ++ a :: post → Along step P s pre → run step s pre = some t → P t a) :
    Along step P s as := by
  have hpre : ∀ n, Along step P s (as.take n) := by
    intro n
    induction n with
    | zero => trivial
    | succ n ih =>
      by_cases hn : n < as.length
      · rw [List.take_succ_eq_append_getElem hn]
        refine along_append.mpr ⟨ih, fun t ht => ⟨?_, fun _ _ => trivial⟩⟩
        refine h (as.take n) _ (as.drop (n + 1)) t ?_ ih ht
        rw [← List.drop_eq_getElem_cons hn, List.take_append_drop]
      · rw [List.take_of_length_le (by omega), ← List.take_of_length_le (Nat.not_lt.mp hn)]
        exact ih
  simpa using hpre as.length

section Invariants

variable {I : σ → Prop}

/-- An invariant kept by the steps that meet `P` holds after every run of such steps. -/
theorem inv_run_along (hstep : ∀ s a t, I s → P s a → step s a = some t → I t) (hs : I s)
    (hP : Along step P s as) (hr : run step s as = some t) : I t := by
  induction as generalizing s with
  | nil =>
    cases hr
    exact hs
  | cons a as ih =>
    obtain ⟨v, hv, hr⟩ := run_cons.mp hr
    exact ih (hstep s a v hs hP.1 hv) (hP.2 v hv) hr

/-- An invariant kept by every step holds after every run. -/
theorem inv_run (hstep : ∀ s a t, I s → step s a = some t → I t) (hs : I s) (hr : run step s as = some t) : I t :=
  inv_run_along (P := fun _ _ => True) (fun s a t hI _ => hstep s a t hI) hs
    (along_of_forall (fun _ _ => trivial) s as) hr

/-- A condition on the labels alone. -/
theorem along_labels {Q : α → Prop} (hr : run step s as = some u) : Along step (fun _ a => Q a) s as ↔ ∀ a ∈ as, Q a := by
  induction as generalizing s with
  | nil => exact iff_of_true trivial fun a ha => nomatch ha
  | cons a as ih =>
    obtain ⟨t, ht, hr⟩ := run_cons.mp hr
    rw [List.forall_mem_cons, ← ih hr]
    refine and_congr_right fun _ => ⟨fun h => h t ht, fun h t' ht' => ?_⟩
    obtain rfl : t = t' := Option.some.inj (ht.symm.trans ht')
    exact h

/-- A condition that says of every step from a state with `I` whether it keeps `I`, says of every run whether all of its
states have `I`. -/
theorem throughout_iff_along (hstep : ∀ s a t, I s → step s a = some t → (P s a ↔ I t)) (hs : I s)
    (hr : run step s as = some u) : Throughout step I s as ↔ Along step P s as := by
  induction as generalizing s with
  | nil =>
    refine ⟨fun _ => trivial, fun _ pre post t hsplit hpre => ?_⟩
    obtain rfl : pre = [] := (List.append_eq_nil_iff.mp hsplit.symm).1
    cases hpre
    exact hs
  | cons a as ih =>
    obtain ⟨v, hv, hr⟩ := run_cons.mp hr
    constructor
    · intro hall
      have hIv : I v := hall [a] as v rfl (run_cons.mpr ⟨v, hv, rfl⟩)
      refine ⟨(hstep s a v hs hv).mpr hIv, fun t ht => ?_⟩
      obtain rfl : v = t := Option.some.inj (hv.symm.trans ht)
      refine (ih hIv hr).mp fun pre post w hsplit hpre => ?_
      exact hall (a :: pre) post w (by rw [hsplit]; rfl) (run_cons.mpr ⟨v, hv, hpre⟩)
    · rintro ⟨hP, hrest⟩ pre post t hsplit hpre
      have hIv : I v := (hstep s a v hs hv).mp hP
      cases pre with
      | nil =>
        cases hpre
        exact hs
      | cons b pre =>
        cases hsplit
        obtain ⟨w, hw, hpre⟩ := run_cons.mp hpre
        obtain rfl : v = w := Option.some.inj (hv.symm.trans hw)
        exact (ih hIv hr).mpr (hrest v hv) pre post t rfl hpre

/-- The rule, where every step keeps `K` as well. -/
theorem throughout_iff_along_inv {K : σ → Prop}
    (hstep : ∀ s a t, I s → K s → step s a = some t → (P s a ↔ I t) ∧ K t) (hI : I s) (hK : K s)
    (hr : run step s as = some u) : Throughout step I s as ↔ Along step P s as := by
  have hboth : Throughout step (fun s => I s ∧ K s) s as ↔ Along step P s as := by
    refine throughout_iff_along (fun s a t hs h => ?_) ⟨hI, hK⟩ hr
    obtain ⟨hiff, hKt⟩ := hstep s a t hs.1 hs.2 h
    exact ⟨fun hP => ⟨hiff.mp hP, hKt⟩, fun ht => hiff.mpr ht.1⟩
  refine ⟨fun hall => ?_, fun hP pre post t hsplit hpre => (hboth.mpr hP pre post t hsplit hpre).1⟩
  -- `K` holds on the way because `I` does
  refine along_of_prefixes fun pre a post v hsplit hpre hv => ?_
  have hv' : Throughout step (fun s => I s ∧ K s) s pre :=
    (throughout_iff_along (fun s a t hs h => ⟨fun hP => ⟨(hstep s a t hs.1 hs.2 h).1.mp hP, (hstep s a t hs.1 hs.2 h).2⟩,
      fun ht => (hstep s a t hs.1 hs.2 h).1.mpr ht.1⟩) ⟨hI, hK⟩ hv).mpr hpre
  obtain ⟨hIv, hKv⟩ := hv' pre [] v (by simp) hv
  rw [hsplit] at hr
  obtain ⟨v', hv'', hr⟩ := run_append.mp hr
  obtain rfl : v = v' := Option.some.inj (hv.symm.trans hv'')
  obtain ⟨w, hw, -⟩ := run_cons.mp hr
  refine (hstep v a w hIv hKv hw).1.mpr (hall (pre ++ [a]) post w (by rw [hsplit]; simp) ?_)
  exact run_snoc.mpr ⟨v, hv, hw⟩

/-- What the step `a` establishes in states with `I`, and every step keeps, holds at the end of the run. -/
theorem after {Q : σ → Prop} (hstep : ∀ s a t, I s → P s a → step s a = some t → I t)
    (hest : ∀ s t, I s → P s a → step s a = some t → Q t)
    (hkeep : ∀ s b t, I s → Q s → P s b → step s b = some t → Q t) (hs : I s)
    (hP : Along step P s (as ++ a :: bs)) (hr : run step s (as ++ a :: bs) = some u) : I u ∧ Q u := by
  obtain ⟨t, ht, hr⟩ := run_append.mp hr
  obtain ⟨v, hv, hr⟩ := run_cons.mp hr
  obtain ⟨hPas, hPt⟩ := along_append.mp hP
  have hIt : I t := inv_run_along hstep hs hPas ht
  obtain ⟨hPa, hPbs⟩ := hPt t ht
  refine inv_run_along (I := fun s => I s ∧ Q s) ?_ ⟨hstep t a v hIt hPa hv, hest t v hIt hPa hv⟩ (hPbs v hv) hr
  rintro s b w ⟨hI, hQ⟩ hb hw
  exact ⟨hstep s b w hI hb hw, hkeep s b w hI hQ hb hw⟩

end Invariants

end Runs
