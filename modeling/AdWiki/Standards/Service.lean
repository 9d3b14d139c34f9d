import AdWiki.Standards.Standard
import AdWiki.Lib.Interleave

/-!
# Calls on one standard

The calls of `StandardsService` on one standard that stays in the table, each read and each write or transaction a
statement. Checks on other tables (access, space, category, pages, users) and failures of the database only decide
whether a statement goes on (`Choice.refused`) and which space an update writes.
-/

namespace AdWiki.Standards

/-- The outside choices of a statement. -/
structure Choice where
  refused : Option HttpError
  spaceId : String
  id : String
  now : Time

inductive Call
  | update (input : UpdateStandardInput) (userId : String)
  | submit
  | approve
  | deprecate
  | ruleEdit (write : RuleWrite) (userId : String)
  | linkPage (pageId : String)
  | unlinkPage (pageId : String)

def addRule (input : CreateStandardRuleInput) (userId : String) : Call := .ruleEdit (.create input) userId

def updateRule (ruleId : String) (input : UpdateStandardRuleInput) (userId : String) : Call :=
  .ruleEdit (.update ruleId input) userId

def removeRule (ruleId userId : String) : Call := .ruleEdit (.delete ruleId) userId

inductive Point
  | updateRead (input : UpdateStandardInput) (userId : String)
  | mcpWrite (existing : FullStandard) (mcpVisible : Bool)
  | updateCheck (existing : FullStandard) (input : UpdateStandardInput) (userId : String)
  | updateSnapshot (existing : FullStandard) (input : UpdateStandardInput) (userId spaceId : String)
  | updateWrite (existing : FullStandard) (input : UpdateStandardInput) (spaceId : String)
  | submitRead
  | submitWrite
  | approveRead
  | approveWrite (current : FullStandard)
  | deprecateRead
  | deprecateWrite
  | ruleRead (write : RuleWrite) (userId : String)
  | ensureRule (standard : FullStandard) (write : RuleWrite) (userId : String)
  | ruleSnapshot (standard : FullStandard) (write : RuleWrite) (userId : String)
  | ruleWrite (standard : FullStandard) (write : RuleWrite)
  | linkRead (pageId : String)
  | linkWrite (pageId : String)
  | unlinkWrite (pageId : String)
  | findOne
  | done (result : Except HttpError FullStandard)
  deriving DecidableEq

def entry : Call → Point
  | .update input userId => .updateRead input userId
  | .submit => .submitRead
  | .approve => .approveRead
  | .deprecate => .deprecateRead
  | .ruleEdit write userId => .ruleRead write userId
  | .linkPage pageId => .linkRead pageId
  | .unlinkPage pageId => .unlinkWrite pageId

def deprecatedNotEditable : HttpError := .badRequest "Veraltete Richtlinien können nicht bearbeitet werden."

def onlyActiveForMcp : HttpError := .badRequest "Nur aktive Richtlinien dürfen für MCP freigegeben werden."

def onlyReviewActivated : HttpError := .badRequest "Nur Richtlinien in Prüfung können aktiviert werden."

def ruleNotFound : HttpError := .notFound "Regel wurde nicht gefunden."

def fail (st : Entry) (e : HttpError) : Option (Entry × Point) := some (st, .done (.error e))

def Entry.setStandard (st : Entry) (standard : Standard) : Entry := { st with standard := standard }

@[simp] theorem setStandard_standard (st : Entry) (standard : Standard) :
    (st.setStandard standard).standard = standard := rfl

/-- An `update` with a `select`, which returns the standard. -/
def writeStandard (st : Entry) (standard : Standard) : Option (Entry × Point) :=
  some (st.setStandard standard, .done (.ok (full (st.setStandard standard))))

/-- The next statement of a call, where nothing outside refuses it. -/
def accepted (st : Entry) (p : Point) (c : Choice) : Option (Entry × Point) :=
  match p with
  | .updateRead input userId =>
    let existing := full st
    if existing.standard.status = .deprecated then fail st deprecatedNotEditable
    else if input.mcpVisible = some true ∧ existing.standard.status ≠ .active then fail st onlyActiveForMcp
    else
      match input.contentChange, input.mcpVisible with
      | false, some mcpVisible => some (st, .mcpWrite existing mcpVisible)
      | _, _ => some (st, .updateCheck existing input userId)
  | .mcpWrite _ mcpVisible => writeStandard st { st.standard with mcpVisible := mcpVisible }
  | .updateCheck existing input userId => some (st, .updateSnapshot existing input userId c.spaceId)
  | .updateSnapshot existing input userId spaceId =>
    some ({ st with versions := snapshot existing userId st.versions }, .updateWrite existing input spaceId)
  | .updateWrite existing input spaceId => writeStandard st (existing.standard.write input spaceId st.standard)
  | .submitRead => some (st, .submitWrite)
  | .submitWrite => writeStandard st { st.standard with status := .review, mcpVisible := false }
  | .approveRead =>
    let current := full st
    if current.standard.status ≠ .review then fail st onlyReviewActivated else some (st, .approveWrite current)
  | .approveWrite current =>
    writeStandard { st with approved := some current } { st.standard with status := .active }
  | .deprecateRead => some (st, .deprecateWrite)
  | .deprecateWrite => writeStandard st { st.standard with status := .deprecated, mcpVisible := false }
  | .ruleRead write userId =>
    match write.ruleId with
    | none => some (st, .ruleSnapshot (full st) write userId)
    | some _ => some (st, .ensureRule (full st) write userId)
  | .ensureRule standard write userId =>
    if write.ruleId.all fun ruleId => (st.rules.find ruleId).isSome then some (st, .ruleSnapshot standard write userId)
    else fail st ruleNotFound
  | .ruleSnapshot standard write userId =>
    some ({ st with versions := snapshot standard userId st.versions }, .ruleWrite standard write)
  | .ruleWrite standard write =>
    match write.apply c.id c.now st.rules with
    | .error e => fail st e
    | .ok rules => some ({ st with rules := rules, standard := standard.standard.ruleChanged st.standard }, .findOne)
  | .linkRead pageId => some (st, .linkWrite pageId)
  | .linkWrite pageId => some ({ st with pages := (st.pages.createMany [pageId]).getD st.pages }, .findOne)
  | .unlinkWrite pageId => some ({ st with pages := st.pages.deleteMany (· = pageId) }, .findOne)
  | .findOne => some (st, .done (.ok (full st)))
  | .done _ => none

/-- The call has ended. -/
def Point.ended : Point → Bool
  | .done _ => true
  | _ => false

def stmt (st : Entry) (_ : Nat) (p : Point) (c : Choice) : Option (Entry × Point) :=
  match c.refused with
  | some e => if p.ended then none else fail st e
  | none => accepted st p c

/-- A statement is refused and changes nothing, or it runs. -/
theorem stmt_cases {st st' : Entry} {i : Nat} {p q : Point} {c : Choice} (h : stmt st i p c = some (st', q)) :
    (∃ e, c.refused = some e ∧ st' = st ∧ q = .done (.error e)) ∨ c.refused = none ∧ accepted st p c = some (st', q) := by
  simp only [stmt] at h
  split at h
  · next e hrefused =>
    split at h
    · cases h
    · cases h
      exact Or.inl ⟨e, hrefused, rfl, rfl⟩
  · next hfree => exact Or.inr ⟨hfree, h⟩

abbrev Sys := Interleave.Sys Entry Point

abbrev Label := Interleave.Label Call Choice

def init (st : Entry) : Sys := ⟨st, []⟩

abbrev step : Sys → Label → Option Sys := Interleave.step entry stmt

end AdWiki.Standards
