import AdWiki.Knowledge.StandardsEvaluation

/-!
# Conflicts between rules

The detector of conflicts and the evaluation of a rule are written apart from each other. Each of the three comparisons of
the detector finds two demands that no target meets (`backupConflict_real`, `minimumConflict_real`,
`namingConflict_real`), and asks the same of both rules (`ruleConflict_comm`).
-/

namespace AdWiki.Knowledge

open Standards

variable {rt : Runtime} {left right : RuleFields} {target : EvaluationTarget} {leftValue rightValue : Option Nat}

/-! ## No target meets both demands -/

theorem backupConflict_real (h : (backupConflict left right).isSome) (hl : Satisfies rt left target)
    (hr : Satisfies rt right target) :
    False := by
  unfold backupConflict at h
  cases hleft : left.backupRequired with
  | none => simp [hleft] at h
  | some leftBackup =>
    cases hright : right.backupRequired with
    | none => simp [hleft, hright] at h
    | some rightBackup =>
      obtain ⟨a, ha, hmeets⟩ := hl.backup leftBackup hleft
      obtain ⟨b, hb, hmeets'⟩ := hr.backup rightBackup hright
      cases ha.symm.trans hb
      simp only [hleft, hright, Option.isSome_ite, ne_eq] at h
      -- the target has what the left rule demands, and what the right rule demands
      have hleftRequired : (if left.type = .mustNot then !leftBackup else leftBackup) = a := by
        by_cases htype : left.type = .mustNot
        · rw [if_pos htype]
          have hne : a ≠ leftBackup := fun heq => (hmeets.mp heq) htype
          exact (Bool.eq_not_of_ne hne).symm
        · rw [if_neg htype]
          exact (hmeets.mpr htype).symm
      have hrightRequired : (if right.type = .mustNot then !rightBackup else rightBackup) = a := by
        by_cases htype : right.type = .mustNot
        · rw [if_pos htype]
          have hne : a ≠ rightBackup := fun heq => (hmeets'.mp heq) htype
          exact (Bool.eq_not_of_ne hne).symm
        · rw [if_neg htype]
          exact (hmeets'.mpr htype).symm
      exact h (hleftRequired.trans hrightRequired.symm)

/-- A value that is at least the one and below the other. -/
theorem minimumConflict_real {actual : Option Nat} (h : (minimumConflict left right leftValue rightValue).isSome)
    (hl : ∀ n, leftValue = some n → ∃ a, actual = some a ∧ (n ≤ a ↔ left.type ≠ .mustNot))
    (hr : ∀ n, rightValue = some n → ∃ a, actual = some a ∧ (n ≤ a ↔ right.type ≠ .mustNot)) : False := by
  unfold minimumConflict at h
  split at h
  · next n m =>
    obtain ⟨a, rfl, hmeets⟩ := hl n rfl
    obtain ⟨b, hb, hmeets'⟩ := hr m rfl
    cases hb
    by_cases htype : left.type = .mustNot
    · by_cases htype' : right.type = .mustNot
      · simp [htype, htype'] at h
      · simp only [htype, htype', eq_iff_iff, iff_false, not_true_eq_false, if_false, if_true, Option.isSome_ite] at h
        have hbelow : ¬n ≤ a := fun hle => hmeets.mp hle htype
        have hreaches : m ≤ a := hmeets'.mpr htype'
        omega
    · by_cases htype' : right.type = .mustNot
      · simp only [htype, htype', eq_iff_iff, iff_true, if_false, Option.isSome_ite] at h
        have hbelow : ¬m ≤ a := fun hle => hmeets'.mp hle htype'
        have hreaches : n ≤ a := hmeets.mpr htype
        omega
      · simp [htype, htype'] at h
  · cases h

theorem namingConflict_real (h : (namingConflict left right).isSome) (hl : Satisfies rt left target)
    (hr : Satisfies rt right target) :
    False := by
  unfold namingConflict at h
  rw [Option.isSome_ite] at h
  obtain ⟨hset, -, hsame, hdiffer⟩ := h
  obtain ⟨pattern, hpattern, hne⟩ := (Option.any_eq_true _ _).mp hset
  have hne : pattern ≠ "" := by simpa using hne
  obtain ⟨name, hname, -, htest⟩ := hl.name pattern hpattern hne
  obtain ⟨name', hname', -, htest'⟩ := hr.name pattern (hsame ▸ hpattern) hne
  cases hname.symm.trans hname'
  have hboth : (left.type != .mustNot) = (right.type != .mustNot) := Option.some.inj (htest.symm.trans htest')
  refine hdiffer (propext ?_)
  rw [← not_iff_not, ← ne_eq, ← ne_eq, ← bne_iff_ne, ← bne_iff_ne, hboth]

theorem ruleConflict_isSome : (ruleConflict left right).isSome ↔ (backupConflict left right).isSome ∨
    (minimumConflict left right left.minVcpu right.minVcpu).isSome ∨
      (minimumConflict left right left.minRamMb right.minRamMb).isSome ∨
    (namingConflict left right).isSome := by
  simp only [ruleConflict, Option.isSome_or, Bool.or_eq_true]

theorem ruleConflict_real (h : (ruleConflict left right).isSome) (hl : Satisfies rt left target)
    (hr : Satisfies rt right target) :
    False := by
  rcases ruleConflict_isSome.mp h with h | h | h | h
  · exact backupConflict_real h hl hr
  · exact minimumConflict_real h hl.vcpus hr.vcpus
  · exact minimumConflict_real h hl.ramMb hr.ramMb
  · exact namingConflict_real h hl hr

/-! ## The order of the rules -/

theorem backupConflict_comm : (backupConflict left right).isSome ↔ (backupConflict right left).isSome := by
  unfold backupConflict
  cases left.backupRequired with
  | none => cases right.backupRequired <;> rfl
  | some leftBackup =>
    cases right.backupRequired with
    | none => rfl
    | some rightBackup =>
      simp only [Option.isSome_ite]
      exact ne_comm

theorem minimumConflict_comm (leftValue rightValue : Option Nat) :
    (minimumConflict left right leftValue rightValue).isSome ↔
      (minimumConflict right left rightValue leftValue).isSome := by
  unfold minimumConflict
  cases leftValue with
  | none => cases rightValue <;> rfl
  | some n =>
    cases rightValue with
    | none => rfl
    | some m =>
      by_cases htype : left.type = .mustNot
      · by_cases htype' : right.type = .mustNot
        · simp [htype, htype']
        · simp [htype, htype']
      · by_cases htype' : right.type = .mustNot
        · simp [htype, htype']
        · simp [htype, htype']

theorem namingConflict_comm : (namingConflict left right).isSome ↔ (namingConflict right left).isSome := by
  unfold namingConflict
  rw [Option.isSome_ite, Option.isSome_ite]
  constructor
  · rintro ⟨hl, hr, hsame, hdiffer⟩
    exact ⟨hr, hl, hsame.symm, fun heq => hdiffer heq.symm⟩
  · rintro ⟨hr, hl, hsame, hdiffer⟩
    exact ⟨hl, hr, hsame.symm, fun heq => hdiffer heq.symm⟩

theorem ruleConflict_comm : (ruleConflict left right).isSome ↔ (ruleConflict right left).isSome := by
  rw [ruleConflict_isSome, ruleConflict_isSome, backupConflict_comm, minimumConflict_comm left.minVcpu,
    minimumConflict_comm left.minRamMb, namingConflict_comm]

/-! ## Reported conflicts -/

/-- A rule that passes is one that the target satisfies; one that is left out does not pass. -/
theorem satisfies_of_pass {standardId : String} {rule : StandardRule} {input : EvaluateStandardsInput}
    (h : (evaluateRule rt standardId rule input).result = .pass) : Satisfies rt rule.fields input.target := by
  by_cases hout : rule.fields.type = .should ∧ ¬input.includeShould
  · unfold evaluateRule at h
    rw [if_pos hout] at h
    cases h
  · exact (result_eq_pass hout).mp h

theorem reported_conflicts (rt : Runtime) (l r : StandardRule) :
    ((ruleConflict l.fields r.fields).isSome → ∀ (leftId rightId : String) (input : EvaluateStandardsInput),
      ¬((evaluateRule rt leftId l input).result = .pass ∧ (evaluateRule rt rightId r input).result = .pass)) ∧
    ((ruleConflict l.fields r.fields).isSome ↔ (ruleConflict r.fields l.fields).isSome) := by
  refine ⟨fun h leftId rightId input => ?_, ruleConflict_comm⟩
  rintro ⟨hl, hr⟩
  exact ruleConflict_real h (satisfies_of_pass hl) (satisfies_of_pass hr)

/-- Two rules that are reported. -/
example : ruleConflict ⟨"at least", none, .must, 0, some 8, none, none, [], [], none⟩
    ⟨"below", none, .mustNot, 0, some 4, none, none, [], [], none⟩ =
      some "Die Mindestvorgabe 8 kollidiert mit dem Verbot ab 4." := by decide +kernel

end AdWiki.Knowledge
