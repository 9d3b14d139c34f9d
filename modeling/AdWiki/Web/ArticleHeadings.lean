import AdWiki.Common.JsString
import AdWiki.Content.ToggleCheckbox
import AdWiki.Lib.Occurrences
import AdWiki.Lib.Scanner
import AdWiki.Web.WikiLinks

/-!
# The headings of an article

The table of contents of an HTML content lists its headings with text; their ids are made of the texts, with a number
behind the second one of a kind. The same ids are written into the heading tags.

* `withUniqueIds_eq`: the id of an entry, by how many entries before it have the same base.
* `nodup_ids_iff`: when no two entries have the same id.
-/

namespace AdWiki.Web

open Js Scanner Words Content

/-! ## Matches -/

def isLevel (c : Char) : Bool := '1' ≤ c && c ≤ '4'

def levelOf (c : Char) : Nat := c.toNat - '0'.toNat

/-- An opening tag of a heading: the digit and the attributes. -/
structure OpenTag where
  level : Char
  attributes : List Char
  deriving DecidableEq, Repr

def startsWord : List Char → Bool
  | [] => false
  | c :: _ => isWord c

/-- What is before the bracket of an opening tag. -/
def opens : List Char → Option OpenTag
  | '<' :: h :: level :: attributes =>
    if h.toLower == 'h' && isLevel level && !startsWord attributes then some ⟨level, attributes⟩ else none
  | _ => none

/-- `/<h([1-4])\b([^>]*)>/i` at the start of a text. -/
def readOpen (text : List Char) : Option (OpenTag × Nat) :=
  if '>' ∈ text then
    (opens (text.takeWhile (· != '>'))).map fun tag => (tag, (text.takeWhile (· != '>')).length + 1) else none

/-- `/<\/h\1>/i` at the start of a text. -/
def startsClose (level : Char) : List Char → Bool
  | '<' :: '/' :: h :: c :: '>' :: _ => h.toLower == 'h' && c == level
  | _ => false

/-- What is before the closing tag. -/
def beforeClose (level : Char) : List Char → Option (List Char)
  | [] => none
  | c :: cs => if startsClose level (c :: cs) then some [] else (beforeClose level cs).map (c :: ·)

/-- `HTML_HEADING` at the start of a text: the digit and what is between the tags. -/
def readHeading (text : List Char) : Option ((Char × List Char) × Nat) :=
  match readOpen text with
  | none => none
  | some (tag, n) => (beforeClose tag.level (text.drop n)).map fun inner => ((tag.level, inner), n + inner.length + 5)

/-! ## Texts -/

/-- `/<[^>]+>/` at the start of a text. -/
def readMarkup : List Char → Option (Unit × Nat)
  | '<' :: cs =>
    let body := cs.takeWhile (· != '>')
    if body ≠ [] && cs.contains '>' then some ((), body.length + 2) else none
  | _ => none

/-- `\]\([^)]*\)` behind the text of a link, with its length. -/
def readTarget : List Char → Option Nat
  | ']' :: '(' :: cs => if cs.contains ')' then some ((cs.takeWhile (· != ')')).length + 3) else none
  | _ => none

/-- `/!\[([^\]]*)\]\([^)]*\)/` at the start of a text. -/
def readImage : List Char → Option (List Char × Nat)
  | '!' :: '[' :: cs =>
    let label := cs.takeWhile (· != ']')
    (readTarget (cs.dropWhile (· != ']'))).map fun n => (label, label.length + n + 2)
  | _ => none

/-- `/\[([^\]]+)\]\([^)]*\)/` at the start of a text. -/
def readLink : List Char → Option (List Char × Nat)
  | '[' :: cs =>
    let label := cs.takeWhile (· != ']')
    if label = [] then none else (readTarget (cs.dropWhile (· != ']'))).map fun n => (label, label.length + n + 1)
  | _ => none

/-- What `plainText` writes for each entity; the two names of the apostrophe come one after the other. -/
def entities : List (String × String) :=
  [("&nbsp;", " "), ("&amp;", "&"), ("&lt;", "<"), ("&gt;", ">"), ("&quot;", "\""), ("&#39;", "'"), ("&apos;", "'")]

def isMarkup (c : Char) : Bool := c == Char.ofNat 96 || c == '*' || c == '_' || c == '~'

def plainText (value : List Char) : List Char :=
  let value := replaceAll readMarkup (fun _ => [' ']) value
  let value := replaceLinks [] (fun target label => some (label.getD target)) 0 value
  let value := replaceAll readImage id value
  let value := replaceAll readLink id value
  let value := value.filter fun c => !isMarkup c
  let value := entities.foldl (fun value entity => replaceAux entity.1.toList entity.2.toList 0 value) value
  strip ' ' (collapse ' ' (value.map fun c => if isSpace c then none else some c))

/-! ## Ids -/

structure ArticleHeading where
  id : List Char
  level : Nat
  text : List Char
  deriving DecidableEq, Repr

/-- The id of the entry that is the `count`-th one with its base. -/
def countedId (base : List Char) (count : Nat) : List Char :=
  if count = 1 then base else base ++ '-' :: Nat.toDigits 10 count

section Parameters

variable (normalizeNFKD toLocaleLowerCase : List Char → List Char) (isLetterOrNumber : Char → Bool)

def baseId (text : List Char) : List Char :=
  let letters := toLocaleLowerCase ((normalizeNFKD text).filter fun c => !isCombining c)
  let words := collapse '-' (letters.map fun c => if isLetterOrNumber c then some c else none)
  let id := ((words.dropWhile (· == '-')).reverse.dropWhile (· == '-')).reverse
  if id = [] then "abschnitt".toList else id

end Parameters

/-- The callback for the headings one after the other, with the `Map` as a function. -/
def uniqueIdsFrom (baseOf : List Char → List Char) (counts : List Char → Nat) :
    List (Nat × List Char) → List ArticleHeading
  | [] => []
  | (level, text) :: headings =>
    let base := baseOf text
    let count := counts base + 1
    ⟨countedId base count, level, text⟩ :: uniqueIdsFrom baseOf (Function.update counts base count) headings

def withUniqueIds (baseOf : List Char → List Char) (headings : List (Nat × List Char)) : List ArticleHeading :=
  uniqueIdsFrom baseOf (fun _ => 0) headings

/-- A heading of the content with the place where it begins. -/
structure Located where
  place : Nat
  level : Nat
  text : List Char
  deriving DecidableEq, Repr

/-- The matches of `HTML_HEADING` with text. -/
def locatedHeadings (content : List Char) : List Located :=
  (located 0 (pieces readHeading 0 content)).filterMap fun found =>
  let text := plainText found.2.2
  if text = [] then none else some ⟨found.1, levelOf found.2.1, text⟩

def htmlHeadings (baseOf : List Char → List Char) (content : List Char) : List ArticleHeading :=
  withUniqueIds baseOf ((locatedHeadings content).map fun heading => (heading.level, heading.text))

/-- `/<([a-z][a-z0-9]*)\b[^>]*>/i` at the start of a text. -/
def startsTag : List Char → Bool
  | '<' :: c :: cs => c.isAlpha && !startsWord (cs.dropWhile Char.isAlphanum) && cs.contains '>'
  | _ => false

def isHtmlContent (content : List Char) : Bool :=
  let trimmed := content.dropWhile isSpace
  trimmed.head? == some '<' && trimmed.tails.any startsTag

/-- The headings of a content in Markdown are a parameter. -/
def extractArticleHeadings (baseOf : List Char → List Char) (markdownHeadings : List Char → List ArticleHeading)
    (content : List Char) :
    List ArticleHeading :=
  if isHtmlContent content then htmlHeadings baseOf content else markdownHeadings content

/-! ## Writing the ids -/

/-- What follows `"[^"]*"`, `'[^']*'` or `[^\s>]+` at the start of a text. -/
def afterValue : List Char → Option (List Char)
  | '"' :: cs =>
    if '"' ∈ cs then some ((cs.dropWhile (· != '"')).drop 1) else some (cs.dropWhile fun c => !isSpace c && c != '>')
  | '\'' :: cs =>
    if '\'' ∈ cs then some ((cs.dropWhile (· != '\'')).drop 1) else some (cs.dropWhile fun c => !isSpace c && c != '>')
  | c :: cs => if isSpace c || c == '>' then none else some (cs.dropWhile fun c => !isSpace c && c != '>')
  | [] => none

/-- What follows `id=` at the start of a text. -/
def afterName : List Char → Option (List Char)
  | i :: d :: '=' :: cs => if i.toLower == 'i' && d.toLower == 'd' then some cs else none
  | _ => none

/-- What follows `/\s+id=(?:"[^"]*"|'[^']*'|[^\s>]+)/i` at the start of a text. -/
def afterId : List Char → Option (List Char)
  | [] => none
  | c :: cs => if isSpace c then (afterName (cs.dropWhile isSpace)).bind afterValue else none

/-- `attributes.replace(…, '')` -/
def removeId (attributes : List Char) : List Char := removeFirst afterId attributes

/-- The attribute that is written. -/
def newId (id : List Char) : List Char := ' ' :: 'i' :: 'd' :: '=' :: '"' :: (id ++ ['"'])

/-- The callback of `addHeadingIdsToHtml`. -/
def writeTag (headings : List ArticleHeading) (index : Nat) (tag : OpenTag) (text : List Char) : List Char :=
  match headings[index]? with
  | none => text
  | some heading =>
    if heading.level ≠ levelOf tag.level then text
      else '<' :: 'h' :: tag.level :: removeId tag.attributes ++ newId heading.id ++ ['>']

def addHeadingIdsToHtml (content : List Char) (headings : List ArticleHeading) : List Char :=
  rewrite (writeTag headings) 0 (pieces readOpen 0 content)

variable {baseOf : List Char → List Char} {headings : List (Nat × List Char)} {content base base' : List Char}
  {bases : List (List Char)} {m n k : Nat}

/-! ## Different ids -/

def idsOf (bases : List (List Char)) : List (List Char) :=
  (Occurrences.numbered bases).map fun entry => countedId entry.1 entry.2

theorem uniqueIdsFrom_eq (counts : List Char → Nat) (headings : List (Nat × List Char)) :
    uniqueIdsFrom baseOf counts headings =
    List.zipWith (fun id heading => ⟨id, heading.1, heading.2⟩)
      ((Occurrences.numberedFrom counts (headings.map fun heading => baseOf heading.2)).map fun entry =>
        countedId entry.1 entry.2) headings := by
  induction headings generalizing counts with
  | nil => rfl
  | cons heading headings ih =>
    obtain ⟨level, text⟩ := heading
    rw [uniqueIdsFrom, ih]
    rfl

theorem withUniqueIds_getElem? (k : Nat) : (withUniqueIds baseOf headings)[k]? = headings[k]?.map fun heading =>
    ⟨countedId (baseOf heading.2) (((headings.take k).map fun heading => baseOf heading.2).count (baseOf heading.2) + 1),
      heading.1, heading.2⟩ := by
  rw [withUniqueIds, uniqueIdsFrom_eq, List.getElem?_zipWith, List.getElem?_map, Occurrences.numberedFrom_getElem?,
    List.getElem?_map]
  cases headings[k]? with
  | none => rfl
  | some heading =>
    rw [Option.map_some, Option.map_some, Nat.zero_add, ← List.map_take]
    rfl

theorem map_id_withUniqueIds :
    (withUniqueIds baseOf headings).map (·.id) = idsOf (headings.map fun heading => baseOf heading.2) := by
  refine List.ext_getElem? fun k => ?_
  rw [List.getElem?_map, withUniqueIds_getElem?, idsOf, Occurrences.numbered, List.getElem?_map,
    Occurrences.numberedFrom_getElem?, List.getElem?_map, Option.map_map, Option.map_map, Option.map_map]
  cases headings[k]? with
  | none => rfl
  | some heading =>
    rw [Option.map_some, Option.map_some, ← List.map_take]
    simp

theorem hyphen_not_mem_toDigits (n : Nat) : '-' ∉ Nat.toDigits 10 n := by
  intro hmem
  have hdigit := Nat.isDigit_of_mem_toDigits (by decide) (by decide) hmem
  exact absurd hdigit (by decide)

theorem toDigits_inj (h : Nat.toDigits 10 m = Nat.toDigits 10 n) : m = n := by
  rw [← Nat.ofDigitChars_toDigits (b := 10) (n := m) (by decide) (by decide), h,
    Nat.ofDigitChars_toDigits (by decide) (by decide)]

/-- The number is what is behind the last hyphen. -/
theorem countedId_inj (hm : 2 ≤ m) (hn : 2 ≤ n) (h : countedId base m = countedId base' n) : base = base' ∧ m = n := by
  rw [countedId, countedId, if_neg (by omega), if_neg (by omega)] at h
  have hreverse := congrArg List.reverse h
  rw [List.reverse_append, List.reverse_append, List.reverse_cons, List.reverse_cons, List.append_assoc,
    List.append_assoc] at hreverse
  have hdigits :
      ∀ n rest, ((Nat.toDigits 10 n).reverse ++ (['-'] ++ rest)).takeWhile (· != '-') = (Nat.toDigits 10 n).reverse := by
    intro n rest
    rw [List.takeWhile_append_of_pos]
    · simp
    · intro c hc
      have hne : c ≠ '-' := fun heq => hyphen_not_mem_toDigits n (heq ▸ List.mem_reverse.mp hc)
      simpa using hne
  have hnumber := congrArg (List.takeWhile (· != '-')) hreverse
  rw [hdigits, hdigits, List.reverse_inj] at hnumber
  obtain rfl := toDigits_inj hnumber
  exact ⟨List.append_cancel_right h, rfl⟩

/-- Two entries have the same id exactly if the base of one of them is that of others with the number of one of these. -/
theorem nodup_idsOf_iff : (idsOf bases).Nodup ↔ ∀ base n, 2 ≤ n → n ≤ bases.count base → countedId base n ∉ bases := by
  rw [idsOf, Occurrences.nodup_map_numbered]
  have hone : ∀ base, countedId base 1 = base := fun base => if_pos rfl
  constructor
  · intro hinj base n htwo hn hmem
    obtain ⟨-, hlt⟩ :=
      hinj base n (countedId base n) 1 (by omega) hn (Nat.le_refl 1) (List.count_pos_iff.mpr hmem) (hone _).symm
    omega
  · intro hfree a m b n hm hma hn hnb hsame
    dsimp only at hsame
    have hmem : ∀ {base k}, 1 ≤ k → k ≤ bases.count base → base ∈ bases :=
      fun hk hle => List.count_pos_iff.mp (Nat.lt_of_lt_of_le hk hle)
    by_cases hmOne : m = 1
    · by_cases hnOne : n = 1
      · rw [hmOne, hnOne, hone, hone] at hsame
        exact ⟨hsame, hmOne.trans hnOne.symm⟩
      · rw [hmOne, hone] at hsame
        exact absurd (hsame ▸ hmem hm hma) (hfree b n (by omega) hnb)
    · by_cases hnOne : n = 1
      · rw [hnOne, hone] at hsame
        exact absurd (hsame ▸ hmem hn hnb) (hfree a m (by omega) hma)
      · exact countedId_inj (by omega) (by omega) hsame

end AdWiki.Web
