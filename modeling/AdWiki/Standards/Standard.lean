import AdWiki.Common.Http
import AdWiki.Lib.Table
import Mathlib

/-!
# Standards

The rows of a standard, what `StandardsService` reads of them (`full`), its inputs, and what its writes do to the rows.
A field of an input is `none` where the request leaves it out; a nullable field that is sent as null is `some none`.
The names of the statuses and priorities in the database and in the API (`STATUS_API`, `PRIORITY_API`) differ in their
spelling only and are one type here.
-/

namespace AdWiki.Standards

inductive StandardStatus
  | draft
  | review
  | active
  | deprecated
  deriving DecidableEq, Repr

inductive StandardPriority
  | low
  | medium
  | high
  | critical
  deriving DecidableEq, Repr

inductive StandardRuleType
  | must
  | should
  | may
  | mustNot
  deriving DecidableEq, Repr

structure Standard where
  id : String
  spaceId : String
  title : String
  slug : String
  description : String
  justification : String
  status : StandardStatus
  priority : StandardPriority
  version : Nat
  mcpVisible : Bool
  validFrom : Option Time
  validUntil : Option Time
  createdById : String
  responsibleId : String
  categoryId : Option String
  deriving DecidableEq, Repr

/-- What a rule says. -/
structure RuleFields where
  title : String
  description : Option String
  type : StandardRuleType
  sortOrder : Int
  minVcpu : Option Nat
  minRamMb : Option Nat
  backupRequired : Option Bool
  allowedPorts : List Nat
  allowedNetworks : List String
  namingConvention : Option String
  deriving DecidableEq, Repr

structure StandardRule where
  id : String
  fields : RuleFields
  createdAt : Time
  updatedAt : Time
  deriving DecidableEq, Repr

/-- The copy of a standard in `standard_versions.snapshot`. -/
structure Snapshot where
  title : String
  description : String
  justification : String
  status : StandardStatus
  priority : StandardPriority
  validFrom : Option Time
  validUntil : Option Time
  rules : List StandardRule
  deriving DecidableEq, Repr

structure StandardVersion where
  version : Nat
  authorId : String
  snapshot : Snapshot
  deriving DecidableEq, Repr

/-- A standard with its rules and the pages that it is linked to, as `include` returns them. -/
structure FullStandard where
  standard : Standard
  rules : List StandardRule
  pages : List String
  deriving DecidableEq, Repr

/-- The rows of one standard in the tables `standards`, `standard_rules`, `standard_versions` and
`standard_page_links`. No table has it: `approved` is what the approve call had read that activated the standard last. -/
structure Entry where
  standard : Standard
  rules : Table StandardRule.id
  versions : Table StandardVersion.version
  pages : Table (id : String → String)
  approved : Option FullStandard

/-- `orderBy: { sortOrder: "asc" }`; rules of one sort order as they are stored. -/
def full (st : Entry) : FullStandard where
  standard := st.standard
  rules := st.rules.rows.insertionSort fun a b => a.fields.sortOrder ≤ b.fields.sortOrder
  pages := st.pages.rows

/-- The text fields of a standard and its rules. -/
structure Content where
  title : String
  description : String
  justification : String
  priority : StandardPriority
  validFrom : Option Time
  validUntil : Option Time
  rules : List (String × RuleFields)
  deriving DecidableEq, Repr

def ruleTexts (rules : List StandardRule) : List (String × RuleFields) := rules.map fun rule => (rule.id, rule.fields)

def FullStandard.content (s : FullStandard) : Content :=
  ⟨s.standard.title, s.standard.description, s.standard.justification, s.standard.priority, s.standard.validFrom,
    s.standard.validUntil, ruleTexts s.rules⟩

def Snapshot.content (s : Snapshot) : Content :=
  ⟨s.title, s.description, s.justification, s.priority, s.validFrom, s.validUntil, ruleTexts s.rules⟩

/-! ## Inputs -/

structure CreateStandardRuleInput where
  title : String
  description : Option String
  type : Option StandardRuleType
  sortOrder : Option Int
  minVcpu : Option Nat
  minRamMb : Option Nat
  backupRequired : Option Bool
  allowedPorts : Option (List Nat)
  allowedNetworks : Option (List String)
  namingConvention : Option String
  deriving DecidableEq, Repr

structure UpdateStandardRuleInput where
  title : Option String
  description : Option String
  type : Option StandardRuleType
  sortOrder : Option Int
  minVcpu : Option (Option Nat)
  minRamMb : Option (Option Nat)
  backupRequired : Option (Option Bool)
  allowedPorts : Option (List Nat)
  allowedNetworks : Option (List String)
  namingConvention : Option (Option String)
  deriving DecidableEq, Repr

structure CreateStandardInput where
  title : String
  description : String
  spaceId : Option String
  justification : String
  priority : Option StandardPriority
  categoryId : Option String
  responsibleId : String
  validFrom : Option Time
  validUntil : Option Time
  mcpVisible : Bool
  pageIds : List String
  rules : List CreateStandardRuleInput
  deriving DecidableEq, Repr

structure UpdateStandardInput where
  title : Option String
  description : Option String
  spaceId : Option String
  justification : Option String
  priority : Option StandardPriority
  categoryId : Option (Option String)
  responsibleId : Option String
  validFrom : Option (Option Time)
  validUntil : Option (Option Time)
  mcpVisible : Option Bool
  deriving DecidableEq, Repr

/-- An input that leaves everything out. -/
def UpdateStandardInput.empty : UpdateStandardInput := ⟨none, none, none, none, none, none, none, none, none, none⟩

/-- `Object.keys(input).some((key) => key !== "mcpVisible")` -/
def UpdateStandardInput.contentChange (input : UpdateStandardInput) : Bool :=
  input.title.isSome || input.description.isSome || input.spaceId.isSome || input.justification.isSome ||
    input.priority.isSome || input.categoryId.isSome || input.responsibleId.isSome || input.validFrom.isSome ||
    input.validUntil.isSome

def ruleCreateData (input : CreateStandardRuleInput) : RuleFields where
  title := input.title
  description := input.description
  type := input.type.getD .must
  sortOrder := input.sortOrder.getD 0
  minVcpu := input.minVcpu
  minRamMb := input.minRamMb
  backupRequired := input.backupRequired
  allowedPorts := input.allowedPorts.getD []
  allowedNetworks := input.allowedNetworks.getD []
  namingConvention := input.namingConvention

/-- The rule after `ruleUpdateData(input)` is written. -/
def ruleUpdateData (input : UpdateStandardRuleInput) (rule : RuleFields) : RuleFields where
  title := input.title.getD rule.title
  description := input.description.or rule.description
  type := input.type.getD rule.type
  sortOrder := input.sortOrder.getD rule.sortOrder
  minVcpu := input.minVcpu.getD rule.minVcpu
  minRamMb := input.minRamMb.getD rule.minRamMb
  backupRequired := input.backupRequired.getD rule.backupRequired
  allowedPorts := input.allowedPorts.getD rule.allowedPorts
  allowedNetworks := input.allowedNetworks.getD rule.allowedNetworks
  namingConvention := input.namingConvention.getD rule.namingConvention

/-! ## Writes -/

/-- `{ status: StandardStatus.REVIEW, mcpVisible: false }`, where the condition on what was read holds. -/
def Standard.reviewIf (standard : Standard) (condition : Bool) : Standard :=
  if condition then { standard with status := .review, mcpVisible := false } else standard

/-- The row after the data of `update` is written; `existing` is the row that was read before. -/
def Standard.write (existing : Standard) (input : UpdateStandardInput) (spaceId : String) (row : Standard) : Standard :=
  Standard.reviewIf
    { row with
      title := input.title.getD row.title
      description := input.description.getD row.description
      justification := input.justification.getD row.justification
      spaceId := spaceId
      priority := input.priority.getD row.priority
      categoryId := input.categoryId.getD row.categoryId
      responsibleId := input.responsibleId.getD row.responsibleId
      validFrom := input.validFrom.getD row.validFrom
      validUntil := input.validUntil.getD row.validUntil
      mcpVisible := input.mcpVisible.getD row.mcpVisible
      version := row.version + 1 }
    (existing.status = .active && input.contentChange)

/-- The row after a change of its rules. -/
def Standard.ruleChanged (existing row : Standard) : Standard :=
  Standard.reviewIf { row with version := row.version + 1 } (existing.status = .active)

section WriteLemmas

variable {existing row : Standard} {input : UpdateStandardInput} {spaceId : String} {condition : Bool}

@[simp] theorem Standard.reviewIf_id : (row.reviewIf condition).id = row.id := by cases condition <;> rfl
@[simp] theorem Standard.reviewIf_version : (row.reviewIf condition).version = row.version := by cases condition <;> rfl
@[simp] theorem Standard.write_id : (existing.write input spaceId row).id = row.id := Standard.reviewIf_id
@[simp] theorem Standard.write_version : (existing.write input spaceId row).version = row.version + 1 :=
  Standard.reviewIf_version
@[simp] theorem Standard.ruleChanged_id : (existing.ruleChanged row).id = row.id := Standard.reviewIf_id
@[simp] theorem Standard.ruleChanged_version : (existing.ruleChanged row).version = row.version + 1 :=
  Standard.reviewIf_version

/-- A standard that was read as active goes back into review with the change. -/
theorem Standard.write_reviewed (row : Standard) (spaceId : String) (hactive : existing.status = .active)
    (hchange : input.contentChange = true) :
    (existing.write input spaceId row).status = .review ∧ (existing.write input spaceId row).mcpVisible = false := by
  simp [Standard.write, Standard.reviewIf, hactive, hchange]

theorem Standard.write_kept (row : Standard) (spaceId : String)
    (h : ¬(existing.status = .active ∧ input.contentChange = true)) :
    (existing.write input spaceId row).status = row.status ∧
      (existing.write input spaceId row).mcpVisible = input.mcpVisible.getD row.mcpVisible := by
  have hcondition : (decide (existing.status = .active) && input.contentChange) = false := by
    simpa using h
  simp only [Standard.write, Standard.reviewIf, hcondition, Bool.false_eq_true, if_false, and_self]

theorem Standard.ruleChanged_reviewed (row : Standard) (hactive : existing.status = .active) :
    (existing.ruleChanged row).status = .review ∧ (existing.ruleChanged row).mcpVisible = false := by
  simp [Standard.ruleChanged, Standard.reviewIf, hactive]

theorem Standard.ruleChanged_kept (h : existing.status ≠ .active) :
    existing.ruleChanged row = { row with version := row.version + 1 } := by
  simp [Standard.ruleChanged, Standard.reviewIf, h]

end WriteLemmas

/-- The statement on `standard_rules` in `addRule`, `updateRule` and `removeRule`. -/
inductive RuleWrite
  | create (input : CreateStandardRuleInput)
  | update (ruleId : String) (input : UpdateStandardRuleInput)
  | delete (ruleId : String)
  deriving DecidableEq

/-- The rule that must be there. -/
def RuleWrite.ruleId : RuleWrite → Option String
  | .create _ => none
  | .update ruleId _ => some ruleId
  | .delete ruleId => some ruleId

/-- The rules after the statement, which fails where the rule is not there or the new `id` is taken. -/
def RuleWrite.apply (id : String) (now : Time) (rules : Table StandardRule.id) :
    RuleWrite → Except HttpError (Table StandardRule.id)
  | .create input =>
    match rules.createMany [⟨id, ruleCreateData input, now, now⟩] with
    | some rules => .ok rules
    | none => .error .uniqueConstraint
  | .update ruleId input =>
    if (rules.find ruleId).isSome then
      .ok
        (rules.updateMany (·.id = ruleId)
          (fun rule => { rule with fields := ruleUpdateData input rule.fields, updatedAt := now })
        fun _ => rfl)
    else .error .recordNotFound
  | .delete ruleId =>
    if (rules.find ruleId).isSome then .ok (rules.deleteMany (·.id = ruleId)) else .error .recordNotFound

/-- The row of `standard_versions` that keeps what was read. -/
def snapshotRow (standard : FullStandard) (userId : String) : StandardVersion where
  version := standard.standard.version
  authorId := userId
  snapshot :=
    { title := standard.standard.title
      description := standard.standard.description
      justification := standard.standard.justification
      status := standard.standard.status
      priority := standard.standard.priority
      validFrom := standard.standard.validFrom
      validUntil := standard.standard.validUntil
      rules := standard.rules }

/-- `snapshot`: an upsert that leaves a row of the version as it is. -/
def snapshot (standard : FullStandard) (userId : String) (versions : Table StandardVersion.version) :
    Table StandardVersion.version :=
  (versions.createMany [snapshotRow standard userId]).getD versions

end AdWiki.Standards
