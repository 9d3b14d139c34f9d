import AdWiki.Wiki.Page
import AdWiki.Lib.Interleave

/-!
# Concurrent edits of one page

`PagesService.update` and `PagesService.toggleCheckbox` on one page, each read and each transaction a step of its own.
Reads and checks on other tables (access, space, category, parent, children) only decide whether an update goes on
and which space it writes; their outcome is a choice. `toggleCheckboxInContent` is any function of the content, the
index and the value, so that the results hold for the source's.
-/

namespace AdWiki.Wiki.Edits

structure Env where
  toggleCheckboxInContent : String → Nat → Bool → Option String

/-- The row of the page and the rows of its history. -/
structure Store where
  page : Page
  versions : List PageVersion
  deriving DecidableEq

structure PageUpdateOptions where
  expectedVersion : Option Nat
  editorId : Option String
  deriving DecidableEq

inductive Call
  | update (input : UpdatePageInput) (options : PageUpdateOptions)
  | toggleCheckbox (checkboxIndex : Nat) (checked : Bool)

inductive Point
  | updateRead (input : UpdatePageInput) (options : PageUpdateOptions)
  | updateCheck (existing : Page) (input : UpdatePageInput) (options : PageUpdateOptions)
  | updateTx (existing : Page) (input : UpdatePageInput) (options : PageUpdateOptions) (spaceId : String)
  | toggleRead (checkboxIndex : Nat) (checked : Bool)
  | toggleCheck (existing : String) (checkboxIndex : Nat) (checked : Bool)
  | toggleWrite (existing content : String)
  | done (result : Except HttpError Page)
  deriving DecidableEq

def entry : Call → Point
  | .update input options => .updateRead input options
  | .toggleCheckbox checkboxIndex checked => .toggleRead checkboxIndex checked

/-- The outcome of the checks on other tables: a refusal, or the space of the page. -/
structure Choice where
  refused : Option HttpError
  spaceId : String

def versionConflict (expected actual : Nat) : HttpError :=
  .conflict ("Versionskonflikt: erwartet " ++ toString expected ++ ", aktuell " ++ toString actual ++ ".")

def changedMeanwhile : HttpError := .conflict "Versionskonflikt: Die Seite wurde zwischenzeitlich geändert."

def pageNotFound (id : String) : HttpError := .notFound ("Seite mit ID \"" ++ id ++ "\" wurde nicht gefunden.")

def checkboxNotFound (checkboxIndex : Nat) : HttpError :=
  .badRequest ("Checkbox mit Index " ++ toString checkboxIndex ++ " wurde nicht gefunden.")

section Statements

variable (env : Env)

def fail (st : Store) (e : HttpError) : Option (Store × Point) := some (st, .done (.error e))

/-- `WHERE id = … AND deleted_at IS NULL`, and the version where one is expected. -/
def updatable (options : PageUpdateOptions) (row : Page) : Bool :=
  row.deletedAt.isNone && options.expectedVersion.all (· == row.version)

def stmt (st : Store) (_ : Nat) (p : Point) (c : Choice) : Option (Store × Point) :=
  match p with
  | .updateRead input options =>
    if st.page.deletedAt.isSome then fail st (pageNotFound st.page.id)
    else some (st, .updateCheck st.page input options)
  | .updateCheck existing input options =>
    match c.refused with
    | some e => fail st e
    | none =>
      match options.expectedVersion with
      | none =>
        some (st, .updateTx existing input options (if input.assignmentChanged then c.spaceId else existing.spaceId))
      | some expected =>
        if existing.version ≠ expected then fail st (versionConflict expected existing.version)
        else
          some (st, .updateTx existing input options (if input.assignmentChanged then c.spaceId else existing.spaceId))
  | .updateTx existing input options spaceId =>
    match c.refused with
    | some e => fail st e
    | none =>
      if updatable options st.page then
        let page := existing.write input spaceId st.page
        some (⟨page, st.versions ++ [existing.snapshot input options.editorId]⟩, .done (.ok page))
      else fail st (if options.expectedVersion.isSome then changedMeanwhile else .recordNotFound)
  | .toggleRead checkboxIndex checked =>
    if st.page.deletedAt.isSome ∨ st.page.type ≠ .page then fail st (pageNotFound st.page.id)
    else some (st, .toggleCheck st.page.content checkboxIndex checked)
  | .toggleCheck existing checkboxIndex checked =>
    match c.refused with
    | some e => fail st e
    | none =>
      match env.toggleCheckboxInContent existing checkboxIndex checked with
      | none => fail st (checkboxNotFound checkboxIndex)
      | some content => some (st, .toggleWrite existing content)
  | .toggleWrite _ content =>
    if st.page.deletedAt.isSome then fail st .recordNotFound
    else
      let page := { st.page with content := content }
      some (⟨page, st.versions⟩, .done (.ok page))
  | .done _ => none

end Statements

abbrev Sys := Interleave.Sys Store Point

abbrev Label := Interleave.Label Call Choice

def init (store : Store) : Sys := ⟨store, []⟩

abbrev step (env : Env) : Sys → Label → Option Sys := Interleave.step entry (stmt env)

end AdWiki.Wiki.Edits
