import Mathlib

/-!
# The tags of an HTML text

The tokenization of HTML, as far as it tells tags from what stands between them: text, comments and the text of elements
such as `textarea`. The states have the names of the standard; a tag keeps all its attributes, in order, of which the
first one with a name counts.

* `tags`: the opening tags with the places behind their brackets.
* `tagsFrom_append`: a text is read from the state in which the one before it ends.
* `after_attribute`: an attribute that is written behind the others of a tag.
-/

namespace HtmlTags

structure Tag where
  closing : Bool
  name : List Char
  attributes : List (List Char × List Char)
  deriving DecidableEq, Repr

def Tag.add (tag : Tag) (name value : List Char) : Tag := { tag with attributes := tag.attributes ++ [(name, value)] }

/-- How much of the end of a comment has been read. -/
inductive CommentState
  | start
  | startDash
  | body
  | endDash
  | endDashes
  | endBang
  deriving DecidableEq, Repr

inductive State
  | data
  | tagOpen
  | endTagOpen
  | tagName (tag : Tag)
  | beforeAttributeName (tag : Tag)
  | attributeName (tag : Tag) (name : List Char)
  | afterAttributeName (tag : Tag) (name : List Char)
  | beforeAttributeValue (tag : Tag) (name : List Char)
  | quoted (tag : Tag) (name : List Char) (quote : Char) (value : List Char)
  | unquoted (tag : Tag) (name value : List Char)
  | afterQuoted (tag : Tag)
  | selfClosing (tag : Tag)
  | markupDeclaration
  | markupDeclarationDash
  | bogusComment
  | comment (state : CommentState)
  | rawText (element : List Char)
  | rawTextLessThan (element : List Char)
  | rawTextEndTag (element name : List Char)
  | plaintext
  deriving DecidableEq, Repr

def isBlank (c : Char) : Bool := c == ' ' || c == '\t' || c == '\n' || c == '\r' || c == Char.ofNat 12

/-- The elements whose text is not markup. -/
def rawTextElements : List (List Char) :=
  ["script".toList, "style".toList, "textarea".toList, "title".toList, "xmp".toList, "iframe".toList, "noembed".toList,
    "noframes".toList,
    "noscript".toList]

/-- The tag that a bracket ends in this state. -/
def closed : State → Option Tag
  | .tagName tag => some tag
  | .beforeAttributeName tag => some tag
  | .afterQuoted tag => some tag
  | .selfClosing tag => some tag
  | .attributeName tag name => some (tag.add name [])
  | .afterAttributeName tag name => some (tag.add name [])
  | .beforeAttributeValue tag name => some (tag.add name [])
  | .unquoted tag name value => some (tag.add name value)
  | _ => none

/-- The state behind a tag. -/
def content (tag : Tag) : State :=
  if tag.closing then .data
  else if tag.name = "plaintext".toList then .plaintext
  else if tag.name ∈ rawTextElements then .rawText tag.name
  else .data

/-- Where the name of an attribute may begin. -/
def attributeStart (tag : Tag) (c : Char) : State :=
  if isBlank c then .beforeAttributeName tag
  else if c = '/' then .selfClosing tag
  else .attributeName tag [c.toLower]

def commentStep (c : Char) : CommentState → State
  | .start => if c = '-' then .comment .startDash else if c = '>' then .data else .comment .body
  | .startDash => if c = '-' then .comment .endDashes else if c = '>' then .data else .comment .body
  | .body => if c = '-' then .comment .endDash else .comment .body
  | .endDash => if c = '-' then .comment .endDashes else .comment .body
  | .endDashes =>
    if c = '>' then .data else if c = '!' then .comment .endBang else if c = '-' then .comment .endDashes
      else .comment .body
  | .endBang => if c = '-' then .comment .endDash else if c = '>' then .data else .comment .body

/-- Inside an element whose text is not markup. -/
def rawTextStep (element : List Char) (c : Char) : State := if c = '<' then .rawTextLessThan element else .rawText element

/-- The next state, where no tag ends. -/
def next (c : Char) : State → State
  | .data => if c = '<' then .tagOpen else .data
  | .tagOpen =>
    if c = '!' then .markupDeclaration
    else if c = '/' then .endTagOpen
    else if c.isAlpha then .tagName ⟨false, [c.toLower], []⟩
    else if c = '?' then .bogusComment
    else if c = '<' then .tagOpen
    else .data
  | .endTagOpen => if c.isAlpha then .tagName ⟨true, [c.toLower], []⟩ else if c = '>' then .data else .bogusComment
  | .tagName tag =>
    if isBlank c then .beforeAttributeName tag
    else if c = '/' then .selfClosing tag
    else .tagName { tag with name := tag.name ++ [c.toLower] }
  | .beforeAttributeName tag => attributeStart tag c
  | .afterQuoted tag => attributeStart tag c
  | .selfClosing tag => attributeStart tag c
  | .attributeName tag name =>
    if isBlank c then .afterAttributeName tag name
    else if c = '/' then .selfClosing (tag.add name [])
    else if c = '=' then .beforeAttributeValue tag name
    else .attributeName tag (name ++ [c.toLower])
  | .afterAttributeName tag name =>
    if isBlank c then .afterAttributeName tag name
    else if c = '=' then .beforeAttributeValue tag name
    else attributeStart (tag.add name []) c
  | .beforeAttributeValue tag name =>
    if isBlank c then .beforeAttributeValue tag name
    else if c = '"' || c = '\'' then .quoted tag name c []
    else .unquoted tag name [c]
  | .quoted tag name quote value =>
    if c = quote then .afterQuoted (tag.add name value) else .quoted tag name quote (value ++ [c])
  | .unquoted tag name value =>
    if isBlank c then .beforeAttributeName (tag.add name value) else .unquoted tag name (value ++ [c])
  | .markupDeclaration => if c = '-' then .markupDeclarationDash else if c = '>' then .data else .bogusComment
  | .markupDeclarationDash => if c = '-' then .comment .start else if c = '>' then .data else .bogusComment
  | .bogusComment => if c = '>' then .data else .bogusComment
  | .comment state => commentStep c state
  | .rawText element => rawTextStep element c
  | .rawTextLessThan element => if c = '/' then .rawTextEndTag element [] else rawTextStep element c
  | .rawTextEndTag element name =>
    if c.isAlpha then .rawTextEndTag element (name ++ [c.toLower])
    else if name = element ∧ (isBlank c ∨ c = '/') then attributeStart ⟨true, name, []⟩ c
    else if name = element ∧ c = '>' then .data
    else rawTextStep element c
  | .plaintext => .plaintext

def step (s : State) (c : Char) : State :=
  match closed s with
  | some tag => if c = '>' then content tag else next c s
  | none => next c s

def after (s : State) (text : List Char) : State := text.foldl step s

/-- The opening tag that ends with a character. -/
def ended (s : State) (c : Char) : Option Tag := if c = '>' then (closed s).filter fun tag => !tag.closing else none

def tagsFrom : Nat → State → List Char → List (Nat × Tag)
  | _, _, [] => []
  | place, s, c :: cs =>
    match ended s c with
    | some tag => (place + 1, tag) :: tagsFrom (place + 1) (step s c) cs
    | none => tagsFrom (place + 1) (step s c) cs

def tags (text : List Char) : List (Nat × Tag) := tagsFrom 0 .data text

/-- The level of a tag `h1` to `h6`. -/
def headingLevel (tag : Tag) : Option Nat :=
  match tag.name with
  | ['h', digit] => if '1' ≤ digit ∧ digit ≤ '6' then some (digit.toNat - '0'.toNat) else none
  | _ => none

/-- The values of the attributes with a name; the first one counts. -/
def valuesOf (tag : Tag) (name : List Char) : List (List Char) :=
  (tag.attributes.filter (·.1 == name)).map Prod.snd

variable {s : State} {text front back name value : List Char} {place e : Nat} {tag tag' : Tag} {c : Char}

/-! ## Reading on -/

theorem after_append (s : State) (front back : List Char) : after s (front ++ back) = after (after s front) back :=
  List.foldl_append

theorem tagsFrom_append (place : Nat) (s : State) (front back : List Char) :
    tagsFrom place s (front ++ back) = tagsFrom place s front ++
      tagsFrom (place + front.length) (after s front) back := by
  induction front generalizing place s with
  | nil => rfl
  | cons c front ih =>
    have hplace : place + (c :: front).length = place + 1 + front.length := by
      rw [List.length_cons]
      omega
    rw [List.cons_append, tagsFrom, tagsFrom, hplace]
    cases ended s c with
    | none => exact ih (place + 1) (step s c)
    | some tag => exact congrArg ((place + 1, tag) :: ·) (ih (place + 1) (step s c))

theorem bounds_tagsFrom (h : (e, tag) ∈ tagsFrom place s text) : place < e ∧ e ≤ place + text.length := by
  induction text generalizing place s with
  | nil => cases h
  | cons c text ih =>
    have hlater : (e, tag) ∈ tagsFrom (place + 1) (step s c) text → place < e ∧ e ≤ place + (c :: text).length := by
      intro hmem
      obtain ⟨hlow, hhigh⟩ := ih hmem
      rw [List.length_cons]
      omega
    rw [tagsFrom] at h
    split at h
    · rcases List.mem_cons.mp h with heq | h
      · cases heq
        rw [List.length_cons]
        omega
      · exact hlater h
    · exact hlater h

/-- Every tag ends behind the ones before it. -/
theorem pairwise_tagsFrom (place : Nat) (s : State) (text : List Char) :
    (tagsFrom place s text).Pairwise fun found found' => found.1 < found'.1 := by
  induction text generalizing place s with
  | nil => exact .nil
  | cons c text ih =>
    rw [tagsFrom]
    split
    · exact List.pairwise_cons.mpr ⟨fun found hfound => (bounds_tagsFrom hfound).1, ih _ _⟩
    · exact ih _ _

theorem tagsFrom_of_not_mem (h : '>' ∉ text) (place : Nat) (s : State) : tagsFrom place s text = [] := by
  induction text generalizing place s with
  | nil => rfl
  | cons c text ih =>
    rw [List.mem_cons, not_or] at h
    have hended : ended s c = none := if_neg (Ne.symm h.1)
    rw [tagsFrom, hended]
    exact ih h.2 _ _

/-- A text whose only bracket ends an opening tag. -/
theorem tagsFrom_closed (h : '>' ∉ text) (hclosed : closed (after s text) = some tag) (hopening : tag.closing = false)
    (place : Nat) :
    tagsFrom place s (text ++ ['>']) = [(place + text.length + 1, tag)] := by
  have hended : ended (after s text) '>' = some tag := by
    rw [ended, if_pos rfl, hclosed]
    simp [hopening]
  rw [tagsFrom_append, tagsFrom_of_not_mem h, List.nil_append, tagsFrom, hended]
  rfl

theorem after_closed (hclosed : closed (after s text) = some tag) : after s (text ++ ['>']) = content tag := by
  rw [after_append]
  show step (after s text) '>' = _
  rw [step, hclosed]
  exact if_pos rfl

/-! ## The name of a tag -/

/-- The tag that is being read. -/
def current : State → Option Tag
  | .quoted tag _ _ _ => some tag
  | s => closed s

theorem current_attributeStart (tag : Tag) (c : Char) :
    ∃ tag', current (attributeStart tag c) = some tag' ∧ tag'.closing = tag.closing ∧ tag'.name = tag.name := by
  unfold attributeStart
  split
  · exact ⟨tag, rfl, rfl, rfl⟩
  · split
    · exact ⟨tag, rfl, rfl, rfl⟩
    · exact ⟨_, rfl, rfl, rfl⟩

/-- Inside a tag its name can only become longer. -/
theorem current_next (h : current s = some tag) :
    ∃ tag', current (next c s) = some tag' ∧ tag'.closing = tag.closing ∧ tag.name <+: tag'.name := by
  have hstart : ∀ tag₀ : Tag, tag₀.closing = tag.closing → tag₀.name = tag.name →
      ∃ tag', current (attributeStart tag₀ c) = some tag' ∧ tag'.closing = tag.closing ∧ tag.name <+: tag'.name := by
    intro tag₀ hclosing hname
    obtain ⟨tag', hcurrent, hclosing', hname'⟩ := current_attributeStart tag₀ c
    exact ⟨tag', hcurrent, hclosing'.trans hclosing, by rw [hname', hname]⟩
  cases s with
  | tagName tag₀ =>
    cases h
    rw [next]
    split
    · exact ⟨_, rfl, rfl, List.prefix_refl _⟩
    · split
      · exact ⟨_, rfl, rfl, List.prefix_refl _⟩
      · exact ⟨_, rfl, rfl, List.prefix_append _ _⟩
  | beforeAttributeName tag₀ =>
    cases h
    exact hstart tag rfl rfl
  | afterQuoted tag₀ =>
    cases h
    exact hstart tag rfl rfl
  | selfClosing tag₀ =>
    cases h
    exact hstart tag rfl rfl
  | attributeName tag₀ name =>
    cases h
    rw [next]
    split
    · exact ⟨_, rfl, rfl, List.prefix_refl _⟩
    · split
      · exact ⟨_, rfl, rfl, List.prefix_refl _⟩
      · split <;> exact ⟨_, rfl, rfl, List.prefix_refl _⟩
  | afterAttributeName tag₀ name =>
    cases h
    rw [next]
    split
    · exact ⟨_, rfl, rfl, List.prefix_refl _⟩
    · split
      · exact ⟨_, rfl, rfl, List.prefix_refl _⟩
      · exact hstart _ rfl rfl
  | beforeAttributeValue tag₀ name =>
    cases h
    rw [next]
    split
    · exact ⟨_, rfl, rfl, List.prefix_refl _⟩
    · split <;> exact ⟨_, rfl, rfl, List.prefix_refl _⟩
  | quoted tag₀ name quote value =>
    cases h
    rw [next]
    split <;> exact ⟨_, rfl, rfl, List.prefix_refl _⟩
  | unquoted tag₀ name value =>
    cases h
    rw [next]
    split <;> exact ⟨_, rfl, rfl, List.prefix_refl _⟩
  | data => cases h
  | tagOpen => cases h
  | endTagOpen => cases h
  | markupDeclaration => cases h
  | markupDeclarationDash => cases h
  | bogusComment => cases h
  | comment state => cases h
  | rawText element => cases h
  | rawTextLessThan element => cases h
  | rawTextEndTag element name => cases h
  | plaintext => cases h

theorem step_of_ne (h : c ≠ '>') (s : State) : step s c = next c s := by
  unfold step
  split
  · exact if_neg h
  · rfl

theorem current_after (h : current s = some tag) (htext : '>' ∉ text) :
    ∃ tag', current (after s text) = some tag' ∧ tag'.closing = tag.closing ∧ tag.name <+: tag'.name := by
  induction text generalizing s tag with
  | nil => exact ⟨tag, h, rfl, List.prefix_refl _⟩
  | cons c text ih =>
    rw [List.mem_cons, not_or] at htext
    obtain ⟨tag₁, hnext, hclosing, hname⟩ := current_next (c := c) h
    rw [← step_of_ne (Ne.symm htext.1)] at hnext
    obtain ⟨tag₂, hafter, hclosing', hname'⟩ := ih hnext htext.2
    exact ⟨tag₂, hafter, hclosing'.trans hclosing, hname.trans hname'⟩

theorem current_of_closed (h : closed s = some tag) : current s = some tag := by
  cases s <;> first | exact h | cases h

/-! ## Writing an attribute -/

/-- The sign of equality has been read, and no value yet. -/
def Waits : State → Prop
  | .beforeAttributeValue _ _ => True
  | _ => False

instance (s : State) : Decidable (Waits s) := by
  unfold Waits
  split <;> infer_instance

/-- What is read as the name of an attribute as it stands. -/
def IsName (name : List Char) : Prop :=
  name ≠ [] ∧ ∀ c ∈ name, isBlank c = false ∧ c ≠ '/' ∧ c ≠ '=' ∧ c ≠ '>' ∧ c.toLower = c

theorem after_name (tag : Tag) (front : List Char)
    (h : ∀ c ∈ name, isBlank c = false ∧ c ≠ '/' ∧ c ≠ '=' ∧ c ≠ '>' ∧ c.toLower = c) :
    after (.attributeName tag front) name = .attributeName tag (front ++ name) := by
  induction name generalizing front with
  | nil =>
    rw [List.append_nil]
    rfl
  | cons c name ih =>
    obtain ⟨hblank, hslash, hequals, hbracket, hlower⟩ := h c List.mem_cons_self
    have hstep : step (.attributeName tag front) c = .attributeName tag (front ++ [c]) := by
      rw [step_of_ne hbracket, next, if_neg (by simp [hblank]), if_neg hslash, if_neg hequals, hlower]
    show after (step _ c) name = _
    rw [hstep, ih (front ++ [c]) fun d hd => h d (List.mem_cons_of_mem c hd), List.append_assoc]
    rfl

theorem after_value (tag : Tag) (name front : List Char) (h : '"' ∉ value) :
    after (.quoted tag name '"' front) value = .quoted tag name '"' (front ++ value) := by
  induction value generalizing front with
  | nil =>
    rw [List.append_nil]
    rfl
  | cons c value ih =>
    rw [List.mem_cons, not_or] at h
    have hstep : step (.quoted tag name '"' front) c = .quoted tag name '"' (front ++ [c]) := by
      show next c (.quoted tag name '"' front) = _
      rw [next, if_neg (Ne.symm h.1)]
    show after (step _ c) value = _
    rw [hstep, ih (front ++ [c]) h.2, List.append_assoc]
    rfl

/-- A space and the first letter of a name begin an attribute behind the others. -/
theorem step_name (h : closed s = some tag) (hwaits : ¬Waits s) (hblank : isBlank c = false) (hslash : c ≠ '/')
    (hequals : c ≠ '=') (hbracket : c ≠ '>') (hlower : c.toLower = c) : step (step s ' ') c = .attributeName tag [c] := by
  have hstart : ∀ tag : Tag, attributeStart tag c = .attributeName tag [c] := by
    intro tag
    rw [attributeStart, if_neg (by simp [hblank]), if_neg hslash, hlower]
  have hbefore : ∀ tag : Tag, step (.beforeAttributeName tag) c = .attributeName tag [c] := by
    intro tag
    rw [step_of_ne hbracket]
    exact hstart tag
  have hafter :
      ∀ (tag : Tag) (name : List Char), step (.afterAttributeName tag name) c = .attributeName (tag.add name []) [c] := by
    intro tag name
    rw [step_of_ne hbracket, next, if_neg (by simp [hblank]), if_neg hequals, hstart]
  rw [step_of_ne (by decide) s]
  cases s with
  | tagName => cases h; exact hbefore tag
  | beforeAttributeName => cases h; exact hbefore tag
  | afterQuoted => cases h; exact hbefore tag
  | selfClosing => cases h; exact hbefore tag
  | attributeName => cases h; exact hafter _ _
  | afterAttributeName => cases h; exact hafter _ _
  | beforeAttributeValue => exact absurd trivial hwaits
  | unquoted => cases h; exact hbefore _
  | _ => cases h

theorem after_attribute (h : closed s = some tag) (hwaits : ¬Waits s) (hname : IsName name) (hvalue : '"' ∉ value) :
    after s (' ' :: name ++ '=' :: '"' :: value ++ ['"']) = .afterQuoted (tag.add name value) := by
  obtain ⟨hne, hall⟩ := hname
  match name, hne with
  | c :: rest, _ =>
    obtain ⟨hblank, hslash, hequals, hbracket, hlower⟩ := hall c List.mem_cons_self
    have hrest := after_name tag [c] fun d hd => hall d (List.mem_cons_of_mem c hd)
    have hend :
      ∀ front, after (.quoted tag (c :: rest) '"' front) ['"'] = .afterQuoted (tag.add (c :: rest) front) := fun _ => rfl
    rw [List.append_assoc, after_append]
    have hstart : after s (' ' :: c :: rest) = .attributeName tag (c :: rest) := by
      show after (step (step s ' ') c) rest = _
      rw [step_name h hwaits hblank hslash hequals hbracket hlower, hrest]
      rfl
    rw [hstart]
    show after (.quoted tag (c :: rest) '"' []) (value ++ ['"']) = _
    rw [after_append, after_value _ _ _ hvalue, List.nil_append, hend]

end HtmlTags
