import AdWiki.Common.JsString
import Mathlib

/-!
# Toggling a checkbox

`toggleCheckboxInContent` scans HTML for `li` tags and Markdown for lines with a checkbox. A regular expression of the
source is a function that reads the match at one place.
-/

namespace AdWiki.Content

open Js

/-! ## HTML -/

/-- `\w` -/
def isWord (c : Char) : Bool := c.isAlphanum || c == '_'

/-- `/<li\b/i` at this place, with a character after it. -/
def startsLi : List Char → Bool
  | '<' :: l :: i :: c :: _ => l.toLower == 'l' && i.toLower == 'i' && !isWord c
  | _ => false

/-- The length of the match of `/<li\b[^>]*>/i` at this place. -/
def matchLi (text : List Char) : Option Nat := if startsLi text then (text.findIdx? (· == '>')).map (· + 1) else none

/-- What a replacement with the flag `g` goes through: matches, and the characters between them. -/
inductive Piece
  | char (c : Char)
  | tag (name : List Char)
  deriving DecidableEq, Repr

def Piece.text : Piece → List Char
  | .char c => [c]
  | .tag name => name

/-- The first argument is what is left of the match that has been read. -/
def pieces : Nat → List Char → List Piece
  | _, [] => []
  | skip + 1, _ :: cs => pieces skip cs
  | 0, c :: cs =>
    match matchLi (c :: cs) with
    | some n => .tag ((c :: cs).take n) :: pieces (n - 1) cs
    | none => .char c :: pieces 0 cs

/-- The texts that `name=(['"])(?:values)\1` stands for, in lower case. -/
def attributeTexts (name : List Char) (values : List (List Char)) : List (List Char) :=
  ['"', '\''].flatMap fun quote => values.map fun value => name ++ '=' :: quote :: value ++ [quote]

/-- `/\bdata-type=(['"])taskItem\1/i` -/
def taskItemTexts : List (List Char) := attributeTexts "data-type".toList ["taskitem".toList]

/-- `/\bdata-checked=(['"])(?:true|false)\1/i` -/
def checkedTexts : List (List Char) := attributeTexts "data-checked".toList ["true".toList, "false".toList]

/-- The length of the match at this place. -/
def matchText (texts : List (List Char)) (text : List Char) : Option Nat :=
  (texts.find? fun candidate => candidate.isPrefixOf (text.map Char.toLower)).map List.length

/-- The first match behind a word boundary, with what is before and after it; the first argument is about the character
before. -/
def findText (texts : List (List Char)) : Bool → List Char → Option (List Char × List Char × List Char)
  | _, [] => none
  | afterWord, c :: cs =>
    match if afterWord then none else matchText texts (c :: cs) with
    | some n => some ([], (c :: cs).take n, (c :: cs).drop n)
    | none => (findText texts (isWord c) cs).map fun found => (c :: found.1, found.2.1, found.2.2)

def isTaskItem (tag : List Char) : Bool := (findText taskItemTexts false tag).isSome

def checkedText (checked : Bool) : List Char :=
  "data-checked=\"".toList ++ (if checked then "true".toList else "false".toList) ++ ['"']

/-- The counter and the flag of the callback. -/
structure TiptapState where
  currentIndex : Nat
  found : Bool

def replaceTag (checkboxIndex : Nat) (checked : Bool) (state : TiptapState) (tag : List Char) : List Char × TiptapState :=
  if !isTaskItem tag then (tag, state)
  else
    let index := state.currentIndex
    let state := { state with currentIndex := index + 1 }
    if index ≠ checkboxIndex then (tag, state)
    else
      match findText checkedTexts false tag with
      | none => (tag, state)
      | some found => (found.1 ++ checkedText checked ++ found.2.2, { state with found := true })

def replaceTags (checkboxIndex : Nat) (checked : Bool) : TiptapState → List Piece → List Char × TiptapState
  | state, [] => ([], state)
  | state, .char c :: rest =>
    let (text, state) := replaceTags checkboxIndex checked state rest
    (c :: text, state)
  | state, .tag tag :: rest =>
    let (replaced, state) := replaceTag checkboxIndex checked state tag
    let (text, state) := replaceTags checkboxIndex checked state rest
    (replaced ++ text, state)

def toggleTiptapTaskItem (content : List Char) (checkboxIndex : Nat) (checked : Bool) : Option (List Char) :=
  let (updated, state) := replaceTags checkboxIndex checked ⟨0, false⟩ (pieces 0 content)
  if state.found then some updated else none

/-! ## Markdown -/

/-- `content.split(/(\r\n|\n|\r)/)`: lines and separators by turns. -/
def splitLines : List Char → List (List Char)
  | [] => [[]]
  | '\r' :: '\n' :: cs => [] :: ['\r', '\n'] :: splitLines cs
  | '\r' :: cs => [] :: ['\r'] :: splitLines cs
  | '\n' :: cs => [] :: ['\n'] :: splitLines cs
  | c :: cs =>
    match splitLines cs with
    | [] => [[c]]
    | line :: parts => (c :: line) :: parts

def isSeparator (part : List Char) : Bool := part == ['\r', '\n'] || part == ['\n'] || part == ['\r']

structure Fence where
  marker : Char
  length : Nat
  deriving DecidableEq, Repr

/-- ``/^\s*(`{3,}|~{3,})/`` -/
def matchFence (line : List Char) : Option Fence :=
  let rest := line.dropWhile isSpace
  match rest with
  | [] => none
  | c :: _ =>
    let length := (rest.takeWhile (· == c)).length
    if (c == Char.ofNat 96 || c == '~') && length ≥ 3 then some ⟨c, length⟩ else none

/-- `/^(\s*[-+*]\s+\[)([ xX])(\])/`: what is before the mark, the mark, and what follows the bracket behind it. -/
def matchTask (line : List Char) : Option (List Char × Char × List Char) :=
  let indent := line.takeWhile isSpace
  match line.dropWhile isSpace with
  | [] => none
  | bullet :: rest =>
    let gap := rest.takeWhile isSpace
    match rest.dropWhile isSpace with
    | '[' :: mark :: ']' :: text =>
      if "-+*".toList.contains bullet && gap ≠ [] && " xX".toList.contains mark then
        some (indent ++ bullet :: gap ++ ['['], mark, text)
      else none
    | _ => none

/-- The fence after a line that matches the expression for fences. -/
def nextFence (fence : Option Fence) (found : Fence) : Option Fence :=
  match fence with
  | none => some found
  | some opened => if opened.marker = found.marker ∧ found.length ≥ opened.length then none else fence

def taskMark (checked : Bool) : Char := if checked then 'x' else ' '

/-- The loop over the parts; `none` is `found` being false at its end. -/
def markdownLoop (checkboxIndex : Nat) (checked : Bool) :
    Option Fence → Nat → List (List Char) → Option (List (List Char))
  | _, _, [] => none
  | fence, currentIndex, line :: parts =>
    if isSeparator line then (markdownLoop checkboxIndex checked fence currentIndex parts).map (line :: ·)
    else
      match matchFence line with
      | some found => (markdownLoop checkboxIndex checked (nextFence fence found) currentIndex parts).map (line :: ·)
      | none =>
        if fence.isSome then (markdownLoop checkboxIndex checked fence currentIndex parts).map (line :: ·)
        else
          match matchTask line with
          | none => (markdownLoop checkboxIndex checked fence currentIndex parts).map (line :: ·)
          | some task =>
            if currentIndex = checkboxIndex then some ((task.1 ++ taskMark checked :: ']' :: task.2.2) :: parts)
            else (markdownLoop checkboxIndex checked fence (currentIndex + 1) parts).map (line :: ·)

def toggleMarkdownTaskItem (content : List Char) (checkboxIndex : Nat) (checked : Bool) : Option (List Char) :=
  (markdownLoop checkboxIndex checked none 0 (splitLines content)).map List.flatten

def toggleCheckboxInContent (content : List Char) (checkboxIndex : Nat) (checked : Bool) : Option (List Char) :=
  match toggleTiptapTaskItem content checkboxIndex checked with
  | some updated => some updated
  | none => toggleMarkdownTaskItem content checkboxIndex checked

end AdWiki.Content
