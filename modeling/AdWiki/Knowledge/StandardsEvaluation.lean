import AdWiki.Access.Readable
import AdWiki.Standards.Standard

/-!
# The evaluation of standards

`StandardsEvaluationService.evaluate` checks a target against the rules of the standards that are active, visible, valid
and readable. The standards are a query with a limit of 50; everything else is computed from them. The comparison of
texts without case and the test of a pattern are those of the runtime (`Runtime`).

* `result_eq_pass`: a rule passes exactly if the target satisfies it (`Satisfies`).
* `verdict_eq_compliant`: the verdict on a list of standards.
-/

namespace AdWiki.Knowledge

open Access Fallible Standards

structure KnowledgeAccessContext where
  userId : String
  scopes : List String
  actor : Option AuthenticatedUser

/-- The columns of `standards`, and its rules, that the access rules do not read. -/
structure StandardColumns where
  status : StandardStatus
  priority : StandardPriority
  version : Nat
  mcpVisible : Bool
  validFrom : Option Time
  validUntil : Option Time
  updatedAt : Time
  rules : List StandardRule
  deriving DecidableEq, Repr

/-- The tables; the columns of a standard are found by its id. -/
structure StandardStore where
  db : Database
  columns : String → StandardColumns
  references : References db.knowledge

structure EvaluationTarget where
  vcpus : Option Nat
  ramMb : Option Nat
  backupEnabled : Option Bool
  ports : List Nat
  networks : List String
  name : Option String
  categoryId : Option String
  deriving DecidableEq, Repr

structure EvaluateStandardsInput where
  target : EvaluationTarget
  standardIds : Option (List String)
  includeShould : Bool
  deriving DecidableEq, Repr

inductive CheckResult
  | pass
  | fail
  | unknown
  | notApplicable
  deriving DecidableEq, Repr

structure StandardCheck where
  standardId : String
  ruleId : String
  rule : String
  type : StandardRuleType
  result : CheckResult
  expected : Option String
  actual : Option String
  reason : String
  deriving DecidableEq, Repr

structure ConstraintResult where
  result : CheckResult
  expected : String
  actual : Option String
  reason : String
  deriving DecidableEq, Repr

/-- `evaluationSelect` -/
structure EvaluationStandard where
  id : String
  title : String
  version : Nat
  updatedAt : Time
  rules : List StandardRule
  deriving DecidableEq, Repr

structure KnowledgeSource where
  id : String
  title : String
  version : Nat
  updatedAt : Time
  uri : String
  deriving DecidableEq, Repr

structure KnowledgeConflict where
  topic : String
  sourceIds : List String
  reason : String
  deriving DecidableEq, Repr

inductive Verdict
  | compliant
  | nonCompliant
  | unknown
  deriving DecidableEq, Repr

structure EvaluateStandardsOutput where
  result : Verdict
  checks : List StandardCheck
  unknownChecks : List StandardCheck
  sources : List KnowledgeSource
  conflicts : List KnowledgeConflict
  warnings : List String
  deriving DecidableEq, Repr

/-- What the language offers: `value.toLocaleLowerCase("de-DE")`, and `new RegExp(pattern, "u").test(value)`, which is
`none` where the pattern is none. -/
structure Runtime where
  toLocaleLowerCase : String → String
  test : String → String → Option Bool

/-! ## Constraints -/

section Constraints

variable (rt : Runtime) (label : String) (type : StandardRuleType)

def passFail (passes : Bool) : CheckResult := if passes then .pass else .fail

def minimum (expected : Nat) (actual : Option Nat) : ConstraintResult :=
  match actual with
  | none => ⟨.unknown, s!"{label} mindestens {expected}", none, s!"{label} wurde nicht angegeben."⟩
  | some actual =>
    let passes := if type = .mustNot then decide (actual < expected) else decide (expected ≤ actual)
    { result := passFail passes
      expected := if type = .mustNot then s!"{label} unter {expected}" else s!"{label} mindestens {expected}"
      actual := some s!"{label} {actual}"
      reason := if passes then s!"{label} erfüllt die strukturierte Regel."
        else s!"{label} verletzt die strukturierte Regel." }

def booleanConstraint (expected : Bool) (actual : Option Bool) : ConstraintResult :=
  match actual with
  | none => ⟨.unknown, s!"{label} = {expected}", none, s!"{label} wurde nicht angegeben."⟩
  | some actual =>
    let passes := if type = .mustNot then actual != expected else actual == expected
    { result := passFail passes
      expected := if type = .mustNot then s!"{label} nicht {expected}" else s!"{label} {expected}"
      actual := some s!"{label} {actual}"
      reason := if passes then s!"{label} erfüllt die Regel." else s!"{label} verletzt die Regel." }

def listConstraint (expected actual : List String) : ConstraintResult :=
  let normalized := expected.map rt.toLocaleLowerCase
  let isMatch (value : String) := normalized.contains (rt.toLocaleLowerCase value)
  let passes := if type = .mustNot then (actual.filter isMatch).length == 0 else actual.all isMatch
  { result := passFail passes
    expected := s!"{label} " ++ (if type = .mustNot then "verboten" else "erlaubt") ++ ": " ++ ", ".intercalate expected
    actual := some (s!"{label}: " ++ Js.orElse (", ".intercalate actual) "keine")
    reason := if passes then s!"{label} erfüllen die Regel." else s!"{label} enthalten unzulässige Werte." }

def namingConstraint (pattern : String) (actual : Option String) : ConstraintResult :=
  match actual.filter (· ≠ "") with
  | none => ⟨.unknown, s!"Name gemäß /{pattern}/", none, "Ein Name wurde nicht angegeben."⟩
  | some actual =>
    match rt.test pattern actual with
    | none =>
      ⟨.unknown, s!"/{pattern}/", some actual, "Die gespeicherte Namenskonvention ist kein gültiger regulärer Ausdruck."⟩
    | some isMatch =>
      let passes := if type = .mustNot then !isMatch else isMatch
      { result := passFail passes
        expected := if type = .mustNot then s!"nicht /{pattern}/" else s!"/{pattern}/"
        actual := some actual
        reason := if passes then "Der Name erfüllt die Konvention." else "Der Name verletzt die Konvention." }

end Constraints

/-! ## Rules -/

/-- The constraints of a rule on a target. -/
def constraintsOf (rt : Runtime) (rule : RuleFields) (target : EvaluationTarget) : List ConstraintResult :=
  (rule.minVcpu.map fun n => minimum "vCPU" rule.type n target.vcpus).toList ++
    (rule.minRamMb.map fun n => minimum "RAM (MB)" rule.type n target.ramMb).toList ++
    (rule.backupRequired.map fun b => booleanConstraint "Backup" rule.type b target.backupEnabled).toList ++
    (if rule.allowedPorts ≠ [] then
      [listConstraint rt "Ports" rule.type (rule.allowedPorts.map Nat.repr) (target.ports.map Nat.repr)] else []) ++
    (if rule.allowedNetworks ≠ [] then
      [listConstraint rt "Netze" rule.type rule.allowedNetworks target.networks] else []) ++
    ((rule.namingConvention.filter (· ≠ "")).map fun pattern => namingConstraint rt rule.type pattern target.name).toList

def evaluateRule (rt : Runtime) (standardId : String) (rule : StandardRule) (input : EvaluateStandardsInput) :
    StandardCheck :=
  let check : StandardCheck :=
    { standardId := standardId
      ruleId := rule.id
      rule := rule.fields.title
      type := rule.fields.type
      result := .notApplicable
      expected := none
      actual := none
      reason := "SHOULD-Regeln wurden für diese Auswertung abgewählt." }
  if rule.fields.type = .should ∧ ¬input.includeShould then check
  else
    let constraints := constraintsOf rt rule.fields input.target
    if constraints.length = 0 then
      { check with
        result := .unknown
        reason := "Die Regel enthält keine deterministisch auswertbaren strukturierten Felder." }
    else
      { check with
        result :=
          if constraints.any (·.result == .fail) then .fail
          else if constraints.any (·.result == .unknown) then .unknown else .pass
        expected := some ("; ".intercalate (constraints.map ConstraintResult.expected))
        actual := some ("; ".intercalate (constraints.map fun item => item.actual.getD "nicht angegeben"))
        reason := " ".intercalate (constraints.map ConstraintResult.reason) }

/-! ## Conflicts -/

/-- Does one rule forbid from a value on what the other demands at least? -/
def minimumConflict (left right : RuleFields) (leftValue rightValue : Option Nat) : Option String :=
  match leftValue, rightValue with
  | some leftValue, some rightValue =>
    if (left.type = .mustNot) = (right.type = .mustNot) then none
    else
      let minimum := if left.type = .mustNot then rightValue else leftValue
      let forbiddenFrom := if left.type = .mustNot then leftValue else rightValue
      if forbiddenFrom ≤ minimum then some s!"Die Mindestvorgabe {minimum} kollidiert mit dem Verbot ab {forbiddenFrom}."
      else none
  | _, _ => none

def backupConflict (left right : RuleFields) : Option String :=
  match left.backupRequired, right.backupRequired with
  | some leftBackup, some rightBackup =>
    let leftRequired := if left.type = .mustNot then !leftBackup else leftBackup
    let rightRequired := if right.type = .mustNot then !rightBackup else rightBackup
    if leftRequired ≠ rightRequired then
      some "Die strukturierten Backup-Vorgaben schließen sich gegenseitig aus." else none
  | _, _ => none

def namingConflict (left right : RuleFields) : Option String :=
  if (left.namingConvention.any (· ≠ "")) ∧ (right.namingConvention.any (· ≠ "")) ∧
      left.namingConvention = right.namingConvention ∧ ¬((left.type = .mustNot) = (right.type = .mustNot)) then
    some "Dieselbe Namenskonvention wird gleichzeitig gefordert und verboten."
  else none

def ruleConflict (left right : RuleFields) : Option String :=
  (backupConflict left right).or <| (minimumConflict left right left.minVcpu right.minVcpu).or <|
    (minimumConflict left right left.minRamMb right.minRamMb).or (namingConflict left right)

/-- The conflicts of a standard with one that comes after it. -/
def standardConflicts (left right : EvaluationStandard) : List KnowledgeConflict :=
  left.rules.flatMap fun leftRule => right.rules.filterMap fun rightRule =>
    (ruleConflict leftRule.fields rightRule.fields).map fun reason =>
      { topic := s!"{leftRule.fields.title} ↔ {rightRule.fields.title}"
        sourceIds := [left.id, right.id]
        reason := s!"{left.title} und {right.title}: {reason}" }

def allConflicts : List EvaluationStandard → List KnowledgeConflict
  | [] => []
  | left :: rest => rest.flatMap (standardConflicts left) ++ allConflicts rest

def detectStandardConflicts (standards : List EvaluationStandard) : List KnowledgeConflict :=
  (allConflicts standards).take 100

/-! ## The verdict -/

def EvaluationStandard.source (standard : EvaluationStandard) : KnowledgeSource :=
  ⟨standard.id, standard.title, standard.version, standard.updatedAt, s!"ad-wiki://standards/{standard.id}"⟩

def isMandatory (type : StandardRuleType) : Bool := type == .must || type == .mustNot

def checksOf (rt : Runtime) (standards : List EvaluationStandard) (input : EvaluateStandardsInput) : List StandardCheck :=
  standards.flatMap fun standard => standard.rules.map fun rule => evaluateRule rt standard.id rule input

/-- The result for a list of checks. -/
def verdict (checks : List StandardCheck) : Verdict :=
  let relevant := checks.filter fun check => check.result != .notApplicable
  let mandatory := relevant.filter fun check => isMandatory check.type
  if mandatory.any (·.result == .fail) then .nonCompliant
  else if mandatory.length = 0 ∨ mandatory.any (·.result == .unknown) then .unknown
  else .compliant

def warningsOf (standards : List EvaluationStandard) (checks : List StandardCheck) (conflicts : List KnowledgeConflict) :
    List String :=
  (if standards.length = 0 then ["Keine sichtbare, aktive und aktuell gültige Richtlinie passt zur Auswahl."] else []) ++
    (if checks.any (·.result == .unknown) then
      ["Nicht strukturierte Regeln oder fehlende Ist-Werte werden bewusst als unknown ausgewiesen."] else []) ++
    (if conflicts ≠ [] then
      ["Zwischen aktiven Richtlinien bestehen kritische strukturierte Konflikte; eine menschliche Prüfung ist erforderlich."]
    else [])

/-! ## The service -/

section Service

variable (order : RowOrder) (st : StandardStore) (context : KnowledgeAccessContext) (input : EvaluateStandardsInput)
  (now : Time)

/-- The condition of the queries. -/
def StandardStore.selected (standard : Wiki.Standard) : Bool :=
  let columns := st.columns standard.id
  columns.status == .active && columns.mcpVisible && input.standardIds.all (·.contains standard.id) &&
    ((input.target.categoryId.filter (· ≠ "")).all fun categoryId => standard.categoryId == some categoryId) &&
    columns.validFrom.all (· ≤ now) && columns.validUntil.all (now ≤ ·)

/-- The standards that the actor may read; without an actor there are none. -/
def StandardStore.aclIds (targetIds : List String) : Except HttpError (List String) :=
  match context.actor with
  | none => .ok []
  | some actor => st.db.allowedTargetIds order actor ⟨.standards, .read, .standard, targetIds⟩

def StandardStore.load (standard : Wiki.Standard) : EvaluationStandard where
  id := standard.id
  title := standard.title
  version := (st.columns standard.id).version
  updatedAt := (st.columns standard.id).updatedAt
  rules := (order.apply (st.columns standard.id).rules).insertionSort fun a b => a.fields.sortOrder ≤ b.fields.sortOrder

def priorityRank : StandardPriority → Nat
  | .low => 0
  | .medium => 1
  | .high => 2
  | .critical => 3

/-- `orderBy: [{ priority: "desc" }, { updatedAt: "desc" }]` -/
def StandardStore.before (a b : Wiki.Standard) : Prop :=
  priorityRank (st.columns b.id).priority < priorityRank (st.columns a.id).priority ∨
    (st.columns a.id).priority = (st.columns b.id).priority ∧ (st.columns b.id).updatedAt ≤ (st.columns a.id).updatedAt

instance : DecidableRel st.before := fun _ _ => inferInstanceAs (Decidable (_ ∨ _))

/-- The rows of the last query, before its limit. -/
def StandardStore.ranked : Except HttpError (List Wiki.Standard) := do
  let candidates := st.db.knowledge.standards.findMany order (st.selected input now)
  let allowedIds ← st.aclIds order context (candidates.map Wiki.Standard.id)
  pure ((st.db.knowledge.standards.findMany order fun standard =>
    st.selected input now standard && allowedIds.contains standard.id).insertionSort st.before)

def StandardStore.visibleStandards : Except HttpError (List EvaluationStandard) := do
  throwIf (¬context.scopes.contains "standards:read")
    (.forbidden "Für die Richtlinienauswertung fehlt die Leseberechtigung.")
  let standards ← st.ranked order context input now
  pure ((standards.take 50).map (st.load order))

def StandardStore.evaluate (rt : Runtime) : Except HttpError EvaluateStandardsOutput := do
  let standards ← st.visibleStandards order context input now
  let checks := checksOf rt standards input
  let conflicts := detectStandardConflicts standards
  pure
    { result := verdict checks
      checks := checks
      unknownChecks := checks.filter (·.result == .unknown)
      sources := standards.map EvaluationStandard.source
      conflicts := conflicts
      warnings := warningsOf standards checks conflicts }

end Service

/-! ## What a rule demands -/

variable {rt : Runtime} {label : String} {type : StandardRuleType} {rule : RuleFields} {target : EvaluationTarget}
  {input : EvaluateStandardsInput} {context : KnowledgeAccessContext} {st : StandardStore}
    {order order' : RowOrder} {now : Time}

/-- Only values of the list, or none of them where the rule forbids them. -/
def ListObeys (rt : Runtime) (type : StandardRuleType) (expected actual : List String) : Prop :=
  ∀ value ∈ actual, (∃ other ∈ expected, rt.toLocaleLowerCase other = rt.toLocaleLowerCase value) ↔ type ≠ .mustNot

/-- The target is known to meet every structured field of the rule, and there is one; a forbidden value is one that the
field describes. -/
structure Satisfies (rt : Runtime) (rule : RuleFields) (target : EvaluationTarget) : Prop where
  structured : rule.minVcpu.isSome ∨ rule.minRamMb.isSome ∨ rule.backupRequired.isSome ∨ rule.allowedPorts ≠ [] ∨
    rule.allowedNetworks ≠ [] ∨ rule.namingConvention.any (· ≠ "")
  vcpus : ∀ n, rule.minVcpu = some n → ∃ a, target.vcpus = some a ∧ (n ≤ a ↔ rule.type ≠ .mustNot)
  ramMb : ∀ n, rule.minRamMb = some n → ∃ a, target.ramMb = some a ∧ (n ≤ a ↔ rule.type ≠ .mustNot)
  backup : ∀ b, rule.backupRequired = some b → ∃ a, target.backupEnabled = some a ∧ (a = b ↔ rule.type ≠ .mustNot)
  ports : rule.allowedPorts ≠ [] → ListObeys rt rule.type (rule.allowedPorts.map Nat.repr) (target.ports.map Nat.repr)
  networks : rule.allowedNetworks ≠ [] → ListObeys rt rule.type rule.allowedNetworks target.networks
  name : ∀ pattern, rule.namingConvention = some pattern → pattern ≠ "" →
    ∃ name, target.name = some name ∧ name ≠ "" ∧ rt.test pattern name = some (rule.type != .mustNot)

theorem passFail_pass {passes : Bool} : passFail passes = .pass ↔ passes = true := by
  cases passes <;> simp [passFail]

theorem minimum_pass {n : Nat} {actual : Option Nat} :
    (minimum label type n actual).result = .pass ↔ ∃ a, actual = some a ∧ (n ≤ a ↔ type ≠ .mustNot) := by
  cases actual with
  | none => simp [minimum]
  | some a =>
    simp only [minimum, passFail_pass, Option.some.injEq, exists_eq_left']
    split
    · next h => simp [h]
    · next h => simp [h]

theorem booleanConstraint_pass {b : Bool} {actual : Option Bool} :
    (booleanConstraint label type b actual).result = .pass ↔ ∃ a, actual = some a ∧ (a = b ↔ type ≠ .mustNot) := by
  cases actual with
  | none => simp [booleanConstraint]
  | some a =>
    simp only [booleanConstraint, passFail_pass, Option.some.injEq, exists_eq_left']
    split
    · next h => simp [h]
    · next h => simp [h]

theorem listConstraint_pass {expected actual : List String} :
    (listConstraint rt label type expected actual).result = .pass ↔ ListObeys rt type expected actual := by
  simp only [listConstraint, passFail_pass, ListObeys]
  split
  · next h => simp [h]
  · next h => simp [h]

theorem namingConstraint_pass {pattern : String} {actual : Option String} :
    (namingConstraint rt type pattern actual).result = .pass ↔
      ∃ name, actual = some name ∧ name ≠ "" ∧ rt.test pattern name = some (type != .mustNot) := by
  unfold namingConstraint
  cases hname : actual.filter (· ≠ "") with
  | none =>
    simp only [reduceCtorEq, false_iff, not_exists, not_and]
    rintro name rfl hne
    rw [Option.filter_some, if_pos (by simpa using hne)] at hname
    cases hname
  | some name =>
    obtain ⟨rfl, hne⟩ := Option.filter_eq_some_iff.mp hname
    have hne : name ≠ "" := by simpa using hne
    simp only [Option.some.injEq, exists_eq_left', ne_eq, hne, not_false_eq_true, true_and]
    cases htest : rt.test pattern name with
    | none => simp
    | some isMatch =>
      simp only [passFail_pass, Option.some.injEq]
      split
      · next h => simp [h]
      · next h => rw [bne_iff_ne.mpr h]

/-- A list of constraints, one for each structured field. -/
theorem forall_constraintsOf {P : ConstraintResult → Prop} : (∀ c ∈ constraintsOf rt rule target, P c) ↔
    (∀ n, rule.minVcpu = some n → P (minimum "vCPU" rule.type n target.vcpus)) ∧
    (∀ n, rule.minRamMb = some n → P (minimum "RAM (MB)" rule.type n target.ramMb)) ∧
    (∀ b, rule.backupRequired = some b → P (booleanConstraint "Backup" rule.type b target.backupEnabled)) ∧
    (rule.allowedPorts ≠ [] →
      P (listConstraint rt "Ports" rule.type (rule.allowedPorts.map Nat.repr) (target.ports.map Nat.repr))) ∧
    (rule.allowedNetworks ≠ [] → P (listConstraint rt "Netze" rule.type rule.allowedNetworks target.networks)) ∧
    ∀ pattern, rule.namingConvention = some pattern → pattern ≠ "" →
      P (namingConstraint rt rule.type pattern target.name) := by
  simp only [constraintsOf, List.forall_mem_append, and_assoc]
  refine and_congr ?_ (and_congr ?_ (and_congr ?_ (and_congr ?_ (and_congr ?_ ?_))))
  · cases rule.minVcpu <;> simp
  · cases rule.minRamMb <;> simp
  · cases rule.backupRequired <;> simp
  · by_cases h : rule.allowedPorts = [] <;> simp [h]
  · by_cases h : rule.allowedNetworks = [] <;> simp [h]
  · cases rule.namingConvention with
    | none => simp
    | some pattern => by_cases h : pattern = "" <;> simp [h]

theorem constraintsOf_ne_nil : constraintsOf rt rule target ≠ [] ↔ rule.minVcpu.isSome ∨ rule.minRamMb.isSome ∨
    rule.backupRequired.isSome ∨ rule.allowedPorts ≠ [] ∨ rule.allowedNetworks ≠ [] ∨
      rule.namingConvention.any (· ≠ "") := by
  have hname : rule.namingConvention.filter (· ≠ "") = none ↔ ¬rule.namingConvention.any (· ≠ "") = true := by
    cases rule.namingConvention with
    | none => simp
    | some pattern => by_cases h : pattern = "" <;> simp [h]
  rw [← not_iff_not, not_not]
  simp only [constraintsOf, List.append_eq_nil_iff, Option.toList_eq_nil_iff, Option.map_eq_none_iff, hname, not_or,
    Bool.not_eq_true, Option.isSome_eq_false_iff, Option.isNone_iff_eq_none, and_assoc, ite_eq_right_iff,
      List.cons_ne_nil,
    imp_false, not_not]

theorem passFail_ne {passes : Bool} : passFail passes ≠ .notApplicable := by
  cases passes <;> decide

/-- A constraint passes, fails or is unknown. -/
theorem result_ne_notApplicable : ∀ c ∈ constraintsOf rt rule target, c.result ≠ .notApplicable := by
  refine forall_constraintsOf.mpr
    ⟨fun n _ => ?_, fun n _ => ?_, fun b _ => ?_, fun _ => passFail_ne, fun _ => passFail_ne, ?_⟩
  · cases target.vcpus with
    | none => simp [minimum]
    | some a => exact passFail_ne
  · cases target.ramMb with
    | none => simp [minimum]
    | some a => exact passFail_ne
  · cases target.backupEnabled with
    | none => simp [booleanConstraint]
    | some a => exact passFail_ne
  · intro pattern _ _
    unfold namingConstraint
    split
    · simp
    · split
      · simp
      · exact passFail_ne

/-- A rule that is not left out passes exactly if the target satisfies it. -/
theorem result_eq_pass {standardId : String} {row : StandardRule}
    (happlies : ¬(row.fields.type = .should ∧ ¬input.includeShould)) :
    (evaluateRule rt standardId row input).result = .pass ↔ Satisfies rt row.fields input.target := by
  have hpass : (evaluateRule rt standardId row input).result = .pass ↔
      constraintsOf rt row.fields input.target ≠ [] ∧
        ∀ c ∈ constraintsOf rt row.fields input.target, c.result = .pass := by
    simp only [evaluateRule, if_neg happlies, List.length_eq_zero_iff]
    split
    · next hnil => simp [hnil]
    · next hne =>
      have hcases : ∀ c ∈ constraintsOf rt row.fields input.target, c.result = .pass ↔
          c.result ≠ .fail ∧ c.result ≠ .unknown := by
        intro c hc
        have := result_ne_notApplicable c hc
        cases h : c.result <;> simp_all
      by_cases hfail : (constraintsOf rt row.fields input.target).any (·.result == .fail) = true
      · simp only [hfail, if_true, reduceCtorEq, false_iff, not_and, not_forall]
        obtain ⟨c, hc, hcf⟩ := List.any_eq_true.mp hfail
        exact fun _ => ⟨c, hc, fun h => by rw [h] at hcf; cases hcf⟩
      · by_cases hunknown : (constraintsOf rt row.fields input.target).any (·.result == .unknown) = true
        · simp only [hfail, hunknown, Bool.false_eq_true, if_false, if_true, reduceCtorEq, false_iff, not_and, not_forall]
          obtain ⟨c, hc, hcu⟩ := List.any_eq_true.mp hunknown
          exact fun _ => ⟨c, hc, fun h => by rw [h] at hcu; cases hcu⟩
        · simp only [hfail, hunknown, Bool.false_eq_true, if_false, true_iff]
          refine ⟨hne, fun c hc => (hcases c hc).mpr ⟨fun h => hfail ?_, fun h => hunknown ?_⟩⟩
          · exact List.any_eq_true.mpr ⟨c, hc, by rw [h]; rfl⟩
          · exact List.any_eq_true.mpr ⟨c, hc, by rw [h]; rfl⟩
  rw [hpass, constraintsOf_ne_nil, forall_constraintsOf]
  simp only [minimum_pass, booleanConstraint_pass, listConstraint_pass, namingConstraint_pass]
  constructor
  · rintro ⟨hstructured, hvcpus, hram, hbackup, hports, hnetworks, hname⟩
    exact ⟨hstructured, hvcpus, hram, hbackup, hports, hnetworks, hname⟩
  · intro h
    exact ⟨h.structured, h.vcpus, h.ramMb, h.backup, h.ports, h.networks, h.name⟩

/-! ## The verdict on a list of standards -/

/-- The standard has a rule that counts. -/
def StandardStore.Demands (st : StandardStore) (standard : Wiki.Standard) : Prop :=
  ∃ rule ∈ (st.columns standard.id).rules, isMandatory rule.fields.type = true

/-- The target satisfies every rule of the standard that counts. -/
def StandardStore.Passes (st : StandardStore) (rt : Runtime) (target : EvaluationTarget)
    (standard : Wiki.Standard) : Prop :=
  ∀ rule ∈ (st.columns standard.id).rules, isMandatory rule.fields.type = true → Satisfies rt rule.fields target

theorem mem_load_rules {standard : Wiki.Standard} {rule : StandardRule} :
    rule ∈ (st.load order standard).rules ↔ rule ∈ (st.columns standard.id).rules := by
  rw [StandardStore.load, List.mem_insertionSort, (order.perm _).mem_iff]

theorem evaluateRule_type {standardId : String} {row : StandardRule} :
    (evaluateRule rt standardId row input).type = row.fields.type := by
  unfold evaluateRule
  simp only
  split
  · rfl
  · split <;> rfl

/-- Rules that count are never left out. -/
theorem evaluateRule_applies (rt : Runtime) (standardId : String) {row : StandardRule}
    (hmandatory : isMandatory row.fields.type = true) :
    ¬(row.fields.type = .should ∧ ¬input.includeShould) ∧
      (evaluateRule rt standardId row input).result ≠ .notApplicable := by
  have happlies : ¬(row.fields.type = .should ∧ ¬input.includeShould) := by
    rintro ⟨htype, -⟩
    rw [htype] at hmandatory
    cases hmandatory
  refine ⟨happlies, ?_⟩
  simp only [evaluateRule, if_neg happlies]
  split
  · simp
  · simp only
    split
    · simp
    · split <;> simp

/-- The verdict on checks of which none that counts is left out. -/
theorem verdict_compliant {checks : List StandardCheck}
    (happlies : ∀ check ∈ checks, isMandatory check.type = true → check.result ≠ .notApplicable) :
    verdict checks = .compliant ↔ (∃ check ∈ checks, isMandatory check.type = true) ∧
      ∀ check ∈ checks, isMandatory check.type = true → check.result = .pass := by
  have hmem : ∀ check,
    check ∈ (checks.filter fun check => check.result != .notApplicable).filter (fun check => isMandatory check.type) ↔
      check ∈ checks ∧ isMandatory check.type = true := by
    intro check
    rw [List.mem_filter, List.mem_filter, bne_iff_ne]
    constructor
    · rintro ⟨⟨hcheck, -⟩, hmandatory⟩
      exact ⟨hcheck, hmandatory⟩
    · rintro ⟨hcheck, hmandatory⟩
      exact ⟨⟨hcheck, happlies check hcheck hmandatory⟩, hmandatory⟩
  unfold verdict
  simp only
  generalize (checks.filter fun check => check.result != .notApplicable).filter (fun check => isMandatory check.type) =
    mandatory at hmem
  constructor
  · intro h
    split at h
    · cases h
    · next hfail =>
      split at h
      · cases h
      · next hrest =>
        obtain ⟨hlength, hunknown⟩ := not_or.mp hrest
        obtain ⟨check, hcheck⟩ := List.exists_mem_of_ne_nil mandatory fun hnil => hlength (by rw [hnil]; rfl)
        refine ⟨⟨check, (hmem check).mp hcheck⟩, fun check hcheck hmandatory => ?_⟩
        have hmember := (hmem check).mpr ⟨hcheck, hmandatory⟩
        cases hresult : check.result with
        | pass => rfl
        | fail => exact absurd (List.any_eq_true.mpr ⟨check, hmember, by rw [hresult]; rfl⟩) hfail
        | unknown => exact absurd (List.any_eq_true.mpr ⟨check, hmember, by rw [hresult]; rfl⟩) hunknown
        | notApplicable => exact absurd hresult (happlies check hcheck hmandatory)
  · rintro ⟨⟨check, hcheck, hmandatory⟩, hall⟩
    have hnone : ∀ r, r ≠ .pass → ¬mandatory.any (·.result == r) = true := by
      intro r hr hany
      obtain ⟨c, hc, hresult⟩ := List.any_eq_true.mp hany
      obtain ⟨hchecks, hm⟩ := (hmem c).mp hc
      rw [hall c hchecks hm, beq_iff_eq] at hresult
      exact hr hresult.symm
    have hlength : mandatory.length ≠ 0 := by
      intro hzero
      have hmember := (hmem check).mpr ⟨hcheck, hmandatory⟩
      rw [List.length_eq_zero_iff.mp hzero] at hmember
      cases hmember
    rw [if_neg (hnone .fail (by decide)), if_neg (not_or.mpr ⟨hlength, hnone .unknown (by decide)⟩)]

/-- The verdict on some standards is that of their rules which count. -/
theorem verdict_checksOf {standards : List Wiki.Standard} :
    verdict (checksOf rt (standards.map (st.load order)) input) = .compliant ↔
      (∃ standard ∈ standards, st.Demands standard) ∧ ∀ standard ∈ standards, st.Passes rt input.target standard := by
  have hmem : ∀ check, check ∈ checksOf rt (standards.map (st.load order)) input ↔
      ∃ standard ∈ standards,
        ∃ rule ∈ (st.columns standard.id).rules, evaluateRule rt standard.id rule input = check := by
    intro check
    simp only [checksOf, List.mem_flatMap, List.mem_map, exists_exists_and_eq_and, mem_load_rules]
    rfl
  rw [verdict_compliant]
  · constructor
    · rintro ⟨⟨check, hcheck, hmandatory⟩, hall⟩
      obtain ⟨standard, hstandard, rule, hrule, rfl⟩ := (hmem check).mp hcheck
      rw [evaluateRule_type] at hmandatory
      refine ⟨⟨standard, hstandard, rule, hrule, hmandatory⟩, fun standard hstandard rule hrule hmandatory => ?_⟩
      refine (result_eq_pass (evaluateRule_applies rt standard.id hmandatory).1).mp
        (hall _ ((hmem _).mpr ⟨standard, hstandard, rule, hrule, rfl⟩) ?_)
      rw [evaluateRule_type]
      exact hmandatory
    · rintro ⟨⟨standard, hstandard, rule, hrule, hmandatory⟩, hall⟩
      refine ⟨⟨_, (hmem _).mpr ⟨standard, hstandard, rule, hrule, rfl⟩, ?_⟩, fun check hcheck hmandatory => ?_⟩
      · rw [evaluateRule_type]
        exact hmandatory
      · obtain ⟨standard, hstandard, rule, hrule, rfl⟩ := (hmem check).mp hcheck
        rw [evaluateRule_type] at hmandatory
        exact (result_eq_pass (evaluateRule_applies rt standard.id hmandatory).1).mpr
          (hall standard hstandard rule hrule hmandatory)
  · intro check hcheck hmandatory
    obtain ⟨standard, -, rule, -, rfl⟩ := (hmem check).mp hcheck
    rw [evaluateRule_type] at hmandatory
    exact (evaluateRule_applies rt standard.id hmandatory).2

/-! ## Soundness -/

/-- The standards that the evaluation is about. -/
structure StandardStore.Applies (st : StandardStore) (order : RowOrder) (context : KnowledgeAccessContext)
    (input : EvaluateStandardsInput) (now : Time) (standard : Wiki.Standard) : Prop where
  mem : standard ∈ st.db.knowledge.standards
  selected : st.selected input now standard = true
  readable : ∃ actor, context.actor = some actor ∧ Allowed order st.db actor ⟨.standards, .read, .standard, standard.id⟩

theorem mem_ranked {ranked : List Wiki.Standard} (h : st.ranked order context input now = .ok ranked)
    {standard : Wiki.Standard} :
    standard ∈ ranked ↔ st.Applies order' context input now standard := by
  obtain ⟨allowedIds, hallowed, hranked⟩ := bind_eq_ok.mp h
  rw [← pure_eq_ok.mp hranked, List.mem_insertionSort, Table.mem_findMany, Bool.and_eq_true, List.contains_iff_mem]
  have hcandidates : ∀ standard ∈ st.db.knowledge.standards, st.selected input now standard = true →
      standard.id ∈ (st.db.knowledge.standards.findMany order (st.selected input now)).map Wiki.Standard.id :=
    fun standard hmem hselected => List.mem_map_of_mem (Table.mem_findMany.mpr ⟨hmem, hselected⟩)
  unfold StandardStore.aclIds at hallowed
  cases hactor : context.actor with
  | none =>
    rw [hactor] at hallowed
    cases hallowed
    refine ⟨fun h => absurd h.2.2 List.not_mem_nil, fun h => ?_⟩
    obtain ⟨actor, hsome, -⟩ := h.readable
    rw [hactor] at hsome
    cases hsome
  | some actor =>
    simp only [hactor] at hallowed
    have hrows : ∀ id ∈ (st.db.knowledge.standards.findMany order (st.selected input now)).map Wiki.Standard.id,
        HasRow st.db.knowledge .standard id := by
      intro id hid
      obtain ⟨row, hrow, rfl⟩ := List.mem_map.mp hid
      show (st.db.knowledge.standards.find row.id).isSome
      rw [Table.find_of_mem (Table.mem_findMany.mp hrow).1]
      rfl
    have hsupported : isPermissionSupported ⟨.standards, .read⟩ = true := by decide
    have hiff : standard.id ∈ allowedIds ↔ _ :=
      mem_allowedTargetIds_iff order' st.references (by exact hsupported) hrows hallowed
    constructor
    · rintro ⟨hmem, hselected, hid⟩
      exact ⟨hmem, hselected, actor, hactor, (hiff.mp hid).2⟩
    · rintro ⟨hmem, hselected, actor', hactor', hreadable⟩
      rw [hactor] at hactor'
      cases hactor'
      exact ⟨hmem, hselected, hiff.mpr ⟨hcandidates standard hmem hselected, hreadable⟩⟩

/-- A verdict of compliance is about all standards that apply: one of them has a rule that counts, and the target
satisfies all such rules. -/
def StandardStore.SoundVerdict (st : StandardStore) (order : RowOrder) (context : KnowledgeAccessContext)
    (input : EvaluateStandardsInput) (now : Time) (rt : Runtime) : Prop :=
  ∀ out, st.evaluate order context input now rt = .ok out → out.result = .compliant →
    (∃ standard, st.Applies order context input now standard ∧ st.Demands standard) ∧
      ∀ standard, st.Applies order context input now standard → st.Passes rt input.target standard

theorem evaluate_ok {out : EvaluateStandardsOutput} : st.evaluate order context input now rt = .ok out →
    "standards:read" ∈ context.scopes ∧ ∃ ranked, st.ranked order context input now = .ok ranked ∧
      out.result = verdict (checksOf rt ((ranked.take 50).map (st.load order)) input) := by
  intro h
  obtain ⟨standards, hstandards, hout⟩ := bind_eq_ok.mp h
  obtain ⟨hscope, hstandards⟩ := throwIf_bind_eq_ok.mp hstandards
  obtain ⟨ranked, hranked, hload⟩ := bind_eq_ok.mp hstandards
  cases pure_eq_ok.mp hload
  cases pure_eq_ok.mp hout
  exact ⟨List.contains_iff_mem.mp (not_not.mp hscope), ranked, hranked, rfl⟩

/-- The verdict is sound unless the first fifty standards pass and a later one does not. -/
theorem soundVerdict_iff : st.SoundVerdict order context input now rt ↔ "standards:read" ∈ context.scopes →
    ∀ ranked, st.ranked order context input now = .ok ranked →
      (∀ standard ∈ ranked.drop 50, st.Passes rt input.target standard) ∨
        ¬((∃ standard ∈ ranked.take 50, st.Demands standard) ∧
          ∀ standard ∈ ranked.take 50, st.Passes rt input.target standard) := by
  constructor
  · intro hsound hscope ranked hranked
    by_cases hfirst : (∃ standard ∈ ranked.take 50, st.Demands standard) ∧
        ∀ standard ∈ ranked.take 50, st.Passes rt input.target standard
    · left
      have heval : ∃ out, st.evaluate order context input now rt = .ok out ∧ out.result = .compliant := by
        refine ⟨_, bind_eq_ok.mpr
          ⟨_, throwIf_bind_eq_ok.mpr ⟨by simpa using hscope, bind_eq_ok.mpr ⟨ranked, hranked, rfl⟩⟩, rfl⟩, ?_⟩
        exact verdict_checksOf.mpr hfirst
      obtain ⟨out, hout, hcompliant⟩ := heval
      intro standard hstandard
      refine (hsound out hout hcompliant).2 standard ((mem_ranked hranked).mp ?_)
      exact List.mem_of_mem_drop hstandard
    · exact Or.inr hfirst
  · intro hcond out hout hcompliant
    obtain ⟨hscope, ranked, hranked, hresult⟩ := evaluate_ok hout
    obtain ⟨⟨standard, hstandard, hdemands⟩, hfirst⟩ := verdict_checksOf.mp (hresult.symm.trans hcompliant)
    refine ⟨⟨standard, (mem_ranked hranked).mp (List.mem_of_mem_take hstandard), hdemands⟩, fun standard happlies => ?_⟩
    rcases hcond hscope ranked hranked with hrest | hnot
    · have hmem := (mem_ranked hranked).mpr happlies
      rw [← List.take_append_drop 50 ranked] at hmem
      rcases List.mem_append.mp hmem with htake | hdrop
      · exact hfirst standard htake
      · exact hrest standard hdrop
    · exact absurd ⟨⟨_, hstandard, hdemands⟩, hfirst⟩ hnot

namespace FiftyDemo

def space : Wiki.KnowledgeSpace := ⟨"space", "Handbook", .opened, [.standard]⟩

def standardId (n : Nat) : String := String.ofList [Char.ofNat (65 + n)]

def standards : List Wiki.Standard := (List.range 51).map fun n => ⟨standardId n, "Servers", "space", none⟩

def db : Database where
  directory :=
    { roles := .empty
      users := .empty
      acls := .empty
      permissions := .empty
      providers := .empty
      roleMappings := .empty
      externalIdentities := .empty
      externalRoleGrants := .empty }
  knowledge :=
    { spaces := .single space
      categories := .empty
      pages := .empty
      notes := .empty
      noteShares := .empty
      standards := ⟨standards, by decide +kernel⟩ }
  groupMemberships := .empty
  resourceAclEntries := .empty
  resourceAclBoundaries := .empty

def demand (vcpus : Nat) : StandardRule :=
  ⟨"rule", ⟨"CPU", none, .must, 0, some vcpus, none, none, [], [], none⟩, 0, 0⟩

/-- The oldest standard demands eight processors, the others one. -/
def store : StandardStore where
  db := db
  columns id :=
    if id = standardId 0 then ⟨.active, .medium, 1, true, none, none, 1, [demand 8]⟩
    else ⟨.active, .medium, 1, true, none, none, 2, [demand 1]⟩
  references :=
    { categorySpace := by simp [db, Table.mem_def]
      pageSpace := by simp [db, Table.mem_def]
      pageCategory := by simp [db, Table.mem_def]
      noteSpace := by simp [db, Table.mem_def]
      noteCategory := by simp [db, Table.mem_def]
      standardSpace := by
        intro standard hstandard
        obtain ⟨n, -, rfl⟩ := List.mem_map.mp hstandard
        rfl
      standardCategory := by
        intro standard hstandard
        obtain ⟨n, -, rfl⟩ := List.mem_map.mp hstandard
        simp }

def admin : AuthenticatedUser :=
  ⟨"admin", "admin@wiki", "admin", "Admin", "role", "admin", true, none, some true, some .jwt, none, none⟩

def adminContext : KnowledgeAccessContext := ⟨"admin", ["standards:read"], some admin⟩

def server : EvaluateStandardsInput := ⟨⟨some 4, none, none, [], [], none, none⟩, none, true⟩

def plain : Runtime := ⟨id, fun _ _ => some true⟩

end FiftyDemo

/-- The standard that the target breaks comes after fifty others. -/
theorem later_standard_ignored :
    ¬FiftyDemo.store.SoundVerdict .stored FiftyDemo.adminContext FiftyDemo.server 5 FiftyDemo.plain := by
  intro hsound
  have hrun : ((FiftyDemo.store.evaluate .stored FiftyDemo.adminContext FiftyDemo.server 5 FiftyDemo.plain).toOption.any
      fun out => out.result == .compliant) = true := by decide +kernel
  have hread : ((FiftyDemo.db.evaluate .stored FiftyDemo.admin
      ⟨.standards, .read, .standard, FiftyDemo.standardId 0⟩).toOption.any ResourceAccessDecision.allowed) = true := by
    decide +kernel
  have happlies : FiftyDemo.store.Applies .stored FiftyDemo.adminContext FiftyDemo.server 5
      ⟨FiftyDemo.standardId 0, "Servers", "space", none⟩ := by
    refine ⟨List.mem_map.mpr ⟨0, by simp, rfl⟩, by decide +kernel, FiftyDemo.admin, rfl, ?_⟩
    obtain ⟨d, hd, hallowed⟩ := (Option.any_eq_true _ _).mp hread
    exact ⟨d, toOption_eq_some.mp hd, hallowed⟩
  obtain ⟨out, hout, hresult⟩ := (Option.any_eq_true _ _).mp hrun
  have hpasses := (hsound out (toOption_eq_some.mp hout) (beq_iff_eq.mp hresult)).2 _ happlies
  obtain ⟨a, ha, hle⟩ := (hpasses (FiftyDemo.demand 8) (List.mem_singleton.mpr rfl) rfl).vcpus 8 rfl
  cases ha
  exact absurd (hle.mpr (by decide)) (by decide)

end AdWiki.Knowledge
