import AdWiki.Common.JsString

/-!
# The texts of notes and tasks

What a task says as a note and a note as a task, and the two hashes by which the synchronisation sees that one of them
has changed.
-/

namespace AdWiki.Integrations

/-- `createHash("sha256")` as hexadecimal digits, and `new Date(value)` with `none` for an invalid date. -/
structure Env where
  sha256 : String → String
  sha256_length : ∀ s, (sha256 s).length = 64
  parseDate : String → Option Int

structure TaskBody where
  content : Option String
  contentType : Option String
  deriving DecidableEq, Repr

structure MicrosoftTodoTaskRecord where
  id : String
  title : Option String
  body : Option TaskBody
  lastModifiedDateTime : Option String
  deriving DecidableEq, Repr

/-- The title and the content of a note. -/
structure NoteText where
  title : Option String
  content : String
  deriving DecidableEq, Repr

def untitledTask : String := "Microsoft-To-Do-Aufgabe"

/-- `task.title?.trim()`, or the empty string. -/
def trimmedTitle (title : Option String) : String := (title.map Js.trim).getD ""

def taskContent (task : MicrosoftTodoTaskRecord) : String :=
  let body := ((task.body.bind TaskBody.content).map Js.trim).getD ""
  Js.orElse body (Js.orElse (trimmedTitle task.title) untitledTask)

def isWordChar (c : Char) : Bool := c.isAlphanum || c = '_'

/-- `/^<([a-z][a-z0-9]*)\b[^>]*>/i`. -/
def startsWithTag (s : String) : Bool :=
  match s.toList with
  | '<' :: c :: cs =>
    let rest := cs.dropWhile Char.isAlphanum
    c.isAlpha && !rest.head?.any isWordChar && rest.contains '>'
  | _ => false

def noteBody (content : String) : TaskBody :=
  let trimmed := Js.trim content
  { contentType := some (if startsWithTag trimmed then "html" else "text"), content := some (Js.slice 65000 trimmed) }

/-- `replace(/<[^>]+>/g, " ")`, the first argument being what is left of a tag. -/
def stripTags : Nat → List Char → List Char
  | _, [] => []
  | skip + 1, _ :: cs => stripTags skip cs
  | 0, c :: cs =>
    let inner := cs.takeWhile (· ≠ '>')
    if c = '<' ∧ inner ≠ [] ∧ inner.length < cs.length then ' ' :: stripTags (inner.length + 1) cs
    else c :: stripTags 0 cs

/-- The content without tags and entities, its white space collapsed. -/
def plainContent (content : String) : String :=
  let stripped := String.ofList (stripTags 0 content.toList)
  let unescaped :=
    Js.replaceAll "&#39;" "'" (Js.replaceAll "&quot;" "\"" (Js.replaceAll "&gt;" ">" (Js.replaceAll "&lt;" "<"
    (Js.replaceAll "&amp;" "&" (Js.replaceAll "&nbsp;" " " stripped)))))
  " ".intercalate (Js.words unescaped)

def noteTitle (note : NoteText) : String :=
  Js.slice 200 (Js.orElse (trimmedTitle note.title) (Js.orElse (plainContent note.content) "AD-Wiki-Notiz"))

section Hashes

variable (env : Env)

/-- The hash of `JSON.stringify` of an object with these two members. -/
def contentHash (title content : String) : String :=
  env.sha256 ("\x7b\"title\":" ++ Js.quote title ++ ",\"content\":" ++ Js.quote content ++ "\x7d")

def localHash (note : NoteText) : String := contentHash env (trimmedTitle note.title) note.content

def externalHash (task : MicrosoftTodoTaskRecord) : String :=
  contentHash env (trimmedTitle task.title) (taskContent task)

/-- The time of the last change, or now. -/
def externalUpdatedAt (task : MicrosoftTodoTaskRecord) (now : Int) : Int :=
  (task.lastModifiedDateTime.bind env.parseDate).getD now

end Hashes

variable {env : Env}

theorem contentHash_ne_empty (title content : String) : contentHash env title content ≠ "" := by
  intro h
  have := env.sha256_length _ ▸ congrArg String.length h
  cases this

end AdWiki.Integrations
