import AdWiki.Lib.Spelling
import AdWiki.Wiki.PageLinks

/-!
# Links to pages in the browser

The browser makes `[[title]]` a link to `/wiki/slug`. It reads the slug off the Unicode decomposition of the title, while
the server has made it with `slugify`, which spells characters out by a table and drops the others.

* `slugFromWikiTarget_eq`, `slugifyBy_eq`: each slug is determined by an outline of the title, its letters and where words
  begin.
* `outline_linkTokens`: the browser spells a title character by character too.
* `leadsTo_iff`: the titles whose links lead to the page.
-/

namespace AdWiki.Web

open Wiki Words

/-! ## The links -/

/-- `[^\]|]`, where further characters are excluded. -/
def isTargetChar (excluded : List Char) (c : Char) : Bool := c != ']' && c != '|' && !excluded.contains c

/-- `/\[\[([^\]|]+)(?:\|([^\]]+))?\]\]/` at the start of a text, where the groups exclude further characters: the groups
and what follows the match. A shorter group cannot match, since the next character has to be one that it excludes. -/
def matchLink (excluded : List Char) : List Char → Option (List Char × Option (List Char) × List Char)
  | '[' :: '[' :: cs =>
    let target := cs.takeWhile (isTargetChar excluded)
    if target = [] then none
    else
      match cs.dropWhile (isTargetChar excluded) with
      | ']' :: ']' :: rest => some (target, none, rest)
      | '|' :: cs =>
        let label := cs.takeWhile fun c => c != ']' && !excluded.contains c
        if label = [] then none
        else
          match cs.dropWhile fun c => c != ']' && !excluded.contains c with
          | ']' :: ']' :: rest => some (target, some label, rest)
          | _ => none
      | _ => none
  | _ => none

/-- `content.replace(…)`, where a match for which there is no link stays; the first argument is what is left of a match.
-/
def replaceLinks (excluded : List Char) (link : List Char → Option (List Char) → Option (List Char)) :
    Nat → List Char → List Char
  | _, [] => []
  | skip + 1, _ :: cs => replaceLinks excluded link skip cs
  | 0, c :: cs =>
    match matchLink excluded (c :: cs) with
    | none => c :: replaceLinks excluded link 0 cs
    | some (target, label, rest) =>
      (link target label).getD ((c :: cs).take (cs.length + 1 - rest.length)) ++
        replaceLinks excluded link (cs.length - rest.length) cs

def escapeChar : Char → List Char
  | '&' => "&amp;".toList
  | '<' => "&lt;".toList
  | '>' => "&gt;".toList
  | '"' => "&quot;".toList
  | '\'' => "&#39;".toList
  | c => [c]

def escapeHtml (value : String) : String := String.ofList (value.toList.flatMap escapeChar)

/-- `[a-z0-9]`, or a break. -/
def linkToken (c : Char) : Option Char := if c.isLower || c.isDigit then some c else none

section Browser

variable (normalizeNFD toLowerCase : String → String)

/-- The characters that the slug is made of; the others are breaks. -/
def linkTokens (value : String) : List (Option Char) :=
  (toLowerCase (String.ofList ((normalizeNFD (Js.trim value)).toList.filter fun c => !Js.isCombining c))).toList.map
    linkToken

def slugFromWikiTarget (value : String) : String :=
  String.ofList (strip '-' (collapse '-' (linkTokens normalizeNFD toLowerCase value)))

def markdownLink (target : List Char) (label : Option (List Char)) : Option (List Char) :=
  let slug := slugFromWikiTarget normalizeNFD toLowerCase (String.ofList target)
  if slug = "" then none
    else some ("[" ++ Js.trim (String.ofList (label.getD target)) ++ "](/wiki/" ++ slug ++ ")").toList

def htmlLink (target : List Char) (label : Option (List Char)) : Option (List Char) :=
  let slug := slugFromWikiTarget normalizeNFD toLowerCase (String.ofList target)
  if slug = "" then none
  else some
    ("<a href=\"/wiki/" ++ slug ++ "\">" ++ escapeHtml (Js.trim (String.ofList (label.getD target))) ++ "</a>").toList

def wikiLinkMarkdown (content : String) : String :=
  String.ofList (replaceLinks [] (markdownLink normalizeNFD toLowerCase) 0 content.toList)

def wikiLinkHtml (content : String) : String :=
  String.ofList (replaceLinks ['<', '>'] (htmlLink normalizeNFD toLowerCase) 0 content.toList)

end Browser

/-! ## The slug of the server -/

section Server

variable (table : Char → Option (List Char))

/-- What is left of a character: nothing, a letter, or a break. -/
def slugToken (c : Char) : Option (Option Char) :=
  if Js.isSpace c || c == '-' then some none else if c.isAlphanum then some (some c.toLower) else none

/-- What a character stands for. -/
def slugPieces (c : Char) : List (Option Char) := ((table c).getD [c]).filterMap slugToken

def slugTokens (text : List Char) : List (Option Char) := text.flatMap (slugPieces table)

/-- `slugify` with `lower` and `strict`: the characters are spelled out by the table, what is no letter, digit, white
space or hyphen is dropped, and the rest is trimmed and joined with hyphens. -/
def slugifyBy (text : String) : String := String.ofList (collapse '-' (trimBreaks (slugTokens table text.toList)))

end Server

variable {normalizeNFD toLowerCase : String → String} {table : Char → Option (List Char)}
  {excluded cs before after target : List Char}
  {link : List Char → Option (List Char) → Option (List Char)} {title slug : String} {taken : List String}

/-! ## The outlines -/

theorem linkTokens_letters (value : String) : some '-' ∉ linkTokens normalizeNFD toLowerCase value := by
  intro hmem
  obtain ⟨c, -, hc⟩ := List.mem_map.mp hmem
  unfold linkToken at hc
  split at hc
  · next hletter =>
    obtain rfl := Option.some.inj hc
    exact absurd hletter (by decide)
  · cases hc

theorem slugTokens_letters (text : List Char) : some '-' ∉ slugTokens table text := by
  intro hmem
  obtain ⟨d, -, hpiece⟩ := List.mem_flatMap.mp hmem
  obtain ⟨c, -, hc⟩ := List.mem_filterMap.mp hpiece
  have hupper : ∀ n < 26, (Char.ofNat ('A'.toNat + n)).toLower ≠ '-' := by decide
  unfold slugToken at hc
  split at hc
  · cases hc
  · next hbreak =>
    split at hc
    · have hlower : c.toLower = '-' := Option.some.inj (Option.some.inj hc)
      rcases Js.toLower_eq_or c with hsame | ⟨n, hn, rfl⟩
      · rw [hsame] at hlower
        simp [hlower] at hbreak
      · exact hupper n hn hlower
    · cases hc

theorem slugFromWikiTarget_eq (value : String) : slugFromWikiTarget normalizeNFD toLowerCase value =
    String.ofList (joined '-' (outline (linkTokens normalizeNFD toLowerCase value))) := by
  rw [slugFromWikiTarget, strip_collapse (linkTokens_letters value)]

theorem slugifyBy_eq (text : String) :
    slugifyBy table text = String.ofList (joined '-' (outline (slugTokens table text.toList))) := by
  rw [slugifyBy, collapse_trimBreaks]

/-- `trim` takes white space off both ends. -/
theorem trim_split (s : String) : ∃ front back, (∀ c ∈ front, Js.isSpace c = true) ∧ (∀ c ∈ back, Js.isSpace c = true) ∧
    s.toList = front ++ (Js.trim s).toList ++ back := by
  have hfront := List.takeWhile_append_dropWhile (p := Js.isSpace) (l := s.toList)
  have hback := List.takeWhile_append_dropWhile (p := Js.isSpace) (l := (s.toList.dropWhile Js.isSpace).reverse)
  refine ⟨s.toList.takeWhile Js.isSpace, ((s.toList.dropWhile Js.isSpace).reverse.takeWhile Js.isSpace).reverse,
    fun c hc => List.mem_takeWhile_imp hc, fun c hc => List.mem_takeWhile_imp (List.mem_reverse.mp hc), ?_⟩
  rw [Js.trim, String.toList_ofList, List.append_assoc, ← List.reverse_append, hback, List.reverse_reverse, hfront]

theorem slugTokens_append (left right : List Char) :
    slugTokens table (left ++ right) = slugTokens table left ++ slugTokens table right := by
  rw [slugTokens, List.flatMap_append]
  rfl

/-- Where the table has no entries for white space, trimming makes no difference. -/
theorem slugifyBy_trim (htable : ∀ c, Js.isSpace c = true → table c = none) (text : String) :
    slugifyBy table (Js.trim text) = slugifyBy table text := by
  have hspaces : ∀ (l : List Char), (∀ c ∈ l, Js.isSpace c = true) → ∀ x ∈ slugTokens table l, x = none := by
    intro l hl x hx
    obtain ⟨c, hc, hpiece⟩ := List.mem_flatMap.mp hx
    obtain ⟨d, hdc, htoken⟩ := List.mem_filterMap.mp hpiece
    rw [htable c (hl c hc), Option.getD_none, List.mem_singleton] at hdc
    subst hdc
    rw [slugToken, hl _ hc, Bool.true_or, if_pos rfl] at htoken
    exact (Option.some.inj htoken).symm
  obtain ⟨front, back, hfront, hback, hsplit⟩ := trim_split text
  rw [slugifyBy_eq, slugifyBy_eq, hsplit, slugTokens_append, slugTokens_append,
    outline_between (hspaces front hfront) (hspaces back hback)]

theorem slugifyBy_eq_empty : slugifyBy table title = "" ↔ outline (slugTokens table title.toList) = [] := by
  have hnil : joined '-' (outline (slugTokens table title.toList)) = [] ↔ _ := joined_eq_nil
  rw [slugifyBy_eq, ← hnil]
  constructor
  · intro heq
    rw [← String.toList_ofList (l := joined _ _), heq]
    rfl
  · intro heq
    rw [heq]

/-! ## Character by character -/

/-- Marks that follow one another may have changed places. -/
inductive Reordered (isMark : Char → Bool) (text : List Char) : List Char → Prop
  | refl : Reordered isMark text text
  | swap {front back : List Char} {a c : Char} : Reordered isMark text (front ++ a :: c :: back) → isMark a = true →
      isMark c = true →
      Reordered isMark text (front ++ c :: a :: back)

/-- What is known of `normalize("NFD")` and `toLowerCase`, by the tables of Unicode: a text is decomposed character by
character and its marks are put in order, and small letters are taken for each character, where which one it is may depend
on the place outside of ASCII. -/
structure UnicodeTables (normalizeNFD toLowerCase : String → String) (decomposition lower : Char → List Char)
    (isMark : Char → Bool) : Prop where
  decomposes : ∀ text, Reordered isMark (text.toList.flatMap decomposition) (normalizeNFD text).toList
  lowers : ∀ text, (toLowerCase text).toList.map linkToken = text.toList.flatMap fun c => (lower c).map linkToken
  mark : ∀ c, isMark c = true → ∀ d ∈ lower c, linkToken d = none
  space : ∀ c, Js.isSpace c = true → ∀ d ∈ decomposition c, ∀ e ∈ lower d, linkToken e = none

/-- What a character of a decomposition stands for. -/
def markPieces (lower : Char → List Char) (c : Char) : List (Option Char) :=
  if Js.isCombining c then [] else (lower c).map linkToken

/-- What a character stands for: the letters of its decomposition without the diacritics, or breaks. -/
def linkPieces (decomposition lower : Char → List Char) (c : Char) : List (Option Char) :=
  (decomposition c).flatMap (markPieces lower)

section Unicode

variable {decomposition lower : Char → List Char} {isMark : Char → Bool}
  (hunicode : UnicodeTables normalizeNFD toLowerCase decomposition lower isMark)
include hunicode

theorem linkTokens_eq (value : String) :
    linkTokens normalizeNFD toLowerCase value = (normalizeNFD (Js.trim value)).toList.flatMap (markPieces lower) := by
  have hfilter : ∀ text : List Char, (text.filter fun c => !Js.isCombining c).flatMap (fun c => (lower c).map linkToken) =
      text.flatMap (markPieces lower) := by
    intro text
    induction text with
    | nil => rfl
    | cons c text ih =>
      rw [List.flatMap_cons, markPieces, ← ih]
      cases hc : Js.isCombining c with
      | true => simp [hc]
      | false => simp [hc]
  rw [linkTokens, hunicode.lowers, String.toList_ofList, hfilter]

theorem outline_markPieces {c : Char} (h : isMark c = true) : outline (markPieces lower c) = [] := by
  unfold markPieces
  split
  · rfl
  · have hnone := outline_breaks (s := (lower c).map linkToken) (fun x hx => ?_) []
    · rwa [List.append_nil] at hnone
    · obtain ⟨d, hd, rfl⟩ := List.mem_map.mp hx
      exact hunicode.mark c h d hd

theorem outline_reordered {text text' : List Char} (h : Reordered isMark text text') :
    outline (text'.flatMap (markPieces lower)) = outline (text.flatMap (markPieces lower)) := by
  induction h with
  | refl => rfl
  | @swap front back a c hbefore ha hc ih =>
    have hsplit : ∀ a c, (front ++ a :: c :: back).flatMap (markPieces lower) =
        front.flatMap (markPieces lower) ++ (markPieces lower a ++ markPieces lower c) ++
          back.flatMap (markPieces lower) := by
      intro a c
      simp
    rw [← ih, hsplit, hsplit, outline_swap (outline_markPieces hunicode ha) (outline_markPieces hunicode hc)]

/-- The browser spells a title out character by character, too. -/
theorem outline_linkTokens (value : String) :
    outline (linkTokens normalizeNFD toLowerCase value) =
      outline (value.toList.flatMap (linkPieces decomposition lower)) := by
  have hspaces : ∀ text : List Char, (∀ c ∈ text, Js.isSpace c = true) →
      ∀ x ∈ text.flatMap (linkPieces decomposition lower), x = none := by
    intro text htext x hx
    obtain ⟨c, hc, hpiece⟩ := List.mem_flatMap.mp hx
    obtain ⟨d, hd, hmark⟩ := List.mem_flatMap.mp hpiece
    unfold markPieces at hmark
    split at hmark
    · cases hmark
    · obtain ⟨e, he, rfl⟩ := List.mem_map.mp hmark
      exact hunicode.space c (htext c hc) d hd e he
  obtain ⟨front, back, hfront, hback, hsplit⟩ := trim_split value
  rw [linkTokens_eq hunicode, outline_reordered hunicode (hunicode.decomposes _), List.flatMap_assoc, hsplit,
    List.flatMap_append, List.flatMap_append, outline_between (hspaces front hfront) (hspaces back hback)]
  rfl

end Unicode

/-! ## What is matched -/

theorem replaceLinks_skip (n : Nat) (cs : List Char) :
    replaceLinks excluded link n cs = replaceLinks excluded link 0 (cs.drop n) := by
  induction cs generalizing n with
  | nil => cases n <;> rfl
  | cons c cs ih =>
    cases n with
    | zero => rfl
    | succ n => exact ih n

theorem matchLink_of_ne {c : Char} (h : c ≠ '[') : matchLink excluded (c :: cs) = none := by
  unfold matchLink
  split
  · next heq => exact absurd (List.cons.inj heq).1 h
  · rfl

theorem replaceLinks_before (h : '[' ∉ before) :
    replaceLinks excluded link 0 (before ++ cs) = before ++ replaceLinks excluded link 0 cs := by
  induction before with
  | nil => rfl
  | cons c before ih =>
    have hc : c ≠ '[' := fun heq => h (heq ▸ List.mem_cons_self)
    rw [List.cons_append, replaceLinks, matchLink_of_ne hc]
    dsimp only
    rw [ih fun hmem => h (List.mem_cons_of_mem c hmem)]
    rfl

theorem matchLink_target (hne : target ≠ []) (hall : ∀ c ∈ target, c ≠ ']' ∧ c ≠ '|' ∧ c ∉ excluded) :
    matchLink excluded ('[' :: '[' :: (target ++ ']' :: ']' :: after)) = some (target, none, after) := by
  have hchars : ∀ c ∈ target, isTargetChar excluded c = true := by
    intro c hc
    obtain ⟨hclose, hbar, hnot⟩ := hall c hc
    simp [isTargetChar, hclose, hbar, hnot]
  obtain ⟨htake, hdrop⟩ :=
    takeWhile_stop (']' :: after) hchars (show isTargetChar excluded ']' = false by simp [isTargetChar])
  unfold matchLink
  simp only [htake, hdrop, if_neg hne]

theorem replaceLinks_target (hne : target ≠ []) (hall : ∀ c ∈ target, c ≠ ']' ∧ c ≠ '|' ∧ c ∉ excluded) :
    replaceLinks excluded link 0 ('[' :: '[' :: (target ++ ']' :: ']' :: after)) =
      (link target none).getD ('[' :: '[' :: (target ++ [']', ']'])) ++ replaceLinks excluded link 0 after := by
  have hlength : ('[' :: (target ++ ']' :: ']' :: after)).length = target.length + 3 + after.length := by
    simp
    omega
  have hmatched :
    ('[' :: '[' :: (target ++ ']' :: ']' :: after)).take
      (('[' :: (target ++ ']' :: ']' :: after)).length + 1 - after.length) =
      '[' :: '[' :: (target ++ [']', ']']) := by
    have hcount : ('[' :: (target ++ ']' :: ']' :: after)).length + 1 - after.length =
        ('[' :: '[' :: (target ++ [']', ']'])).length := by
      rw [hlength]
      simp
      omega
    have hsplit :
      '[' :: '[' :: (target ++ ']' :: ']' :: after) = ('[' :: '[' :: (target ++ [']', ']'])) ++ after := by simp
    rw [hcount, hsplit, List.take_left]
  have hrest :
      ('[' :: (target ++ ']' :: ']' :: after)).drop
        (('[' :: (target ++ ']' :: ']' :: after)).length - after.length) = after := by
    have hcount :
        ('[' :: (target ++ ']' :: ']' :: after)).length - after.length = ('[' :: (target ++ [']', ']'])).length := by
      rw [hlength]
      simp
    have hsplit : '[' :: (target ++ ']' :: ']' :: after) = ('[' :: (target ++ [']', ']'])) ++ after := by simp
    rw [hcount, hsplit, List.drop_left]
  rw [replaceLinks, matchLink_target hne hall]
  dsimp only
  rw [hmatched, replaceLinks_skip, hrest]

theorem labelsFrom_target (h : '[' ∉ before) (hne : target ≠ []) (hall : ∀ c ∈ target, c ≠ ']' ∧ c ≠ '|') :
    target ∈ labelsFrom 0 (before ++ '[' :: '[' :: (target ++ ']' :: ']' :: after)) := by
  induction before with
  | nil =>
    have hlink : linkAt ('[' :: '[' :: (target ++ ']' :: ']' :: after)) = some (target, after) := by
      refine linkAt_eq_some.mpr ⟨hne, fun c hc => ?_, .inl rfl⟩
      simp [hall c hc]
    rw [List.nil_append, labelsFrom, hlink]
    exact List.mem_cons_self
  | cons c before ih =>
    have hc : c ≠ '[' := fun heq => h (heq ▸ List.mem_cons_self)
    have hlink : linkAt (c :: (before ++ '[' :: '[' :: (target ++ ']' :: ']' :: after))) = none := by
      unfold linkAt
      split
      · next heq => exact absurd (List.cons.inj heq).1 hc
      · rfl
    rw [List.cons_append, labelsFrom, hlink]
    exact ih fun hmem => h (List.mem_cons_of_mem c hmem)

/-! ## Links that lead to a page -/

/-- Wherever a content has the link, both replacements and the links of the server take it for the page with the slug. -/
structure LeadsTo (normalizeNFD toLowerCase : String → String) (table : Char → Option (List Char))
    (title slug : String) : Prop where
  markdown : ∀ before after : String, '[' ∉ before.toList →
    wikiLinkMarkdown normalizeNFD toLowerCase (before ++ "[[" ++ title ++ "]]" ++ after) =
      before ++ ("[" ++ Js.trim title ++ "](/wiki/" ++ slug ++ ")") ++ wikiLinkMarkdown normalizeNFD toLowerCase after
  html : ∀ before after : String, '[' ∉ before.toList →
    wikiLinkHtml normalizeNFD toLowerCase (before ++ "[[" ++ title ++ "]]" ++ after) =
      before ++ ("<a href=\"/wiki/" ++ slug ++ "\">" ++ escapeHtml (Js.trim title) ++ "</a>") ++
        wikiLinkHtml normalizeNFD toLowerCase after
  lookup : ∀ before after : String, '[' ∉ before.toList →
    slug ∈ linkedSlugs (slugifyBy table) (before ++ "[[" ++ title ++ "]]" ++ after)

theorem toList_content (before title after : String) : (before ++ "[[" ++ title ++ "]]" ++ after).toList =
    before.toList ++ '[' :: '[' :: (title.toList ++ ']' :: ']' :: after.toList) := by
  simp [String.toList_append]

/-- A base that is free becomes the slug. -/
theorem uniqueSlug_free {base : String} (h : base ∉ taken) : uniqueSlug base taken = base := by
  rw [uniqueSlug, Fresh.firstFree, slugCandidate, if_pos (Nat.le_refl 1), if_neg h]
  rfl

theorem replaceLinks_content (hne : title.toList ≠ []) (hall : ∀ c ∈ title.toList, c ≠ ']' ∧ c ≠ '|' ∧ c ∉ excluded)
    {before after : String}
    (h : '[' ∉ before.toList) :
    String.ofList (replaceLinks excluded link 0 (before ++ "[[" ++ title ++ "]]" ++ after).toList) =
      before ++ String.ofList ((link title.toList none).getD ('[' :: '[' :: (title.toList ++ [']', ']']))) ++
        String.ofList (replaceLinks excluded link 0 after.toList) := by
  rw [toList_content, replaceLinks_before h, replaceLinks_target hne hall, String.ofList_append, String.ofList_append,
    String.ofList_toList, String.append_assoc]

/-- A title with an excluded character is no target. -/
theorem replaceLinks_excluded (hplain : ∀ c ∈ target, c ≠ '[' ∧ c ≠ ']' ∧ c ≠ '|') (h : ∃ c ∈ target, c ∈ excluded) :
    replaceLinks excluded link 0 ('[' :: '[' :: (target ++ [']', ']'])) = '[' :: '[' :: (target ++ [']', ']']) := by
  have hsplit := List.takeWhile_append_dropWhile (p := isTargetChar excluded) (l := target)
  cases hdrop : target.dropWhile (isTargetChar excluded) with
  | nil =>
    -- no character of it is excluded
    obtain ⟨c, hc, hcx⟩ := h
    have hall := List.dropWhile_eq_nil_iff.mp hdrop c hc
    simp [isTargetChar, hcx] at hall
  | cons x post =>
    have hx : x ∈ target := by
      rw [← hsplit, hdrop]
      exact List.mem_append_right _ List.mem_cons_self
    obtain ⟨-, hclose, hbar⟩ := hplain x hx
    have hstop : isTargetChar excluded x = false := by
      have hnot := List.head?_dropWhile_not (isTargetChar excluded) target
      rw [hdrop] at hnot
      exact hnot
    rw [hdrop] at hsplit
    have hchars : ∀ c ∈ target.takeWhile (isTargetChar excluded), isTargetChar excluded c = true :=
      fun c hc => List.mem_takeWhile_imp hc
    obtain ⟨htake, hrest⟩ := takeWhile_stop (post ++ [']', ']']) hchars hstop
    have htext : target ++ [']', ']'] =
        (target.takeWhile (isTargetChar excluded)) ++ x :: (post ++ [']', ']']) := by
      conv_lhs => rw [← hsplit]
      simp
    have hmatch : matchLink excluded ('[' :: '[' :: (target ++ [']', ']'])) = none := by
      unfold matchLink
      rw [htext]
      simp only [htake, hrest]
      split
      · rfl
      · split
        · next heq => exact absurd (List.cons.inj heq).1 hclose
        · next heq => exact absurd (List.cons.inj heq).1 hbar
        · rfl
    have hmatch' : matchLink excluded ('[' :: (target ++ [']', ']'])) = none := by
      unfold matchLink
      split
      · next heq =>
        cases target with
        | nil => cases hx
        | cons c target => exact absurd (List.cons.inj (List.cons.inj heq).2).1 (hplain c List.mem_cons_self).1
      · rfl
    have hno : '[' ∉ target ++ [']', ']'] := by
      intro hmem
      rcases List.mem_append.mp hmem with hmem | hmem
      · exact (hplain '[' hmem).1 rfl
      · exact absurd hmem (by decide)
    have hplainRest : replaceLinks excluded link 0 (target ++ [']', ']']) = target ++ [']', ']'] := by
      have hbefore : replaceLinks excluded link 0 (target ++ [']', ']'] ++ []) = _ := replaceLinks_before hno
      simpa [replaceLinks] using hbefore
    rw [replaceLinks, hmatch]
    dsimp only
    rw [replaceLinks, hmatch']
    dsimp only
    rw [hplainRest]

theorem not_excluded (hplain : ∀ c ∈ title.toList, c ≠ '[' ∧ c ≠ ']' ∧ c ≠ '|')
    (hangle : ∀ c ∈ title.toList, c ≠ '<' ∧ c ≠ '>') : ∀ c ∈ title.toList, c ≠ ']' ∧ c ≠ '|' ∧ c ∉ ['<', '>'] := by
  intro c hc
  obtain ⟨hless, hgreater⟩ := hangle c hc
  exact ⟨(hplain c hc).2.1, (hplain c hc).2.2, by simp [hless, hgreater]⟩

section Leads

variable {slug : String} (h : LeadsTo normalizeNFD toLowerCase table title slug)
include h

/-- A link that leads to a page is replaced: the content begins with a bracket, and the link does not. -/
theorem LeadsTo.replaced : wikiLinkHtml normalizeNFD toLowerCase ("" ++ "[[" ++ title ++ "]]" ++ "") ≠
    String.ofList ('[' :: '[' :: (title.toList ++ [']', ']'])) := by
  intro heq
  rw [h.html "" "" List.not_mem_nil] at heq
  have hhead := congrArg (fun s : String => s.toList.head?) heq
  simp [String.toList_append] at hhead

theorem LeadsTo.no_angle (hplain : ∀ c ∈ title.toList, c ≠ '[' ∧ c ≠ ']' ∧ c ≠ '|') :
    ∀ c ∈ title.toList, c ≠ '<' ∧ c ≠ '>' := by
  by_contra hnot
  refine h.replaced ?_
  unfold wikiLinkHtml
  rw [toList_content]
  refine congrArg String.ofList (replaceLinks_excluded hplain ?_)
  simp only [not_forall, not_and_or, not_not] at hnot
  obtain ⟨c, hc, rfl | rfl⟩ := hnot
  · exact ⟨'<', hc, by simp⟩
  · exact ⟨'>', hc, by simp⟩

/-- The browser makes the slug of the page. -/
theorem LeadsTo.slug_eq (hne : title.toList ≠ []) (hplain : ∀ c ∈ title.toList, c ≠ '[' ∧ c ≠ ']' ∧ c ≠ '|') :
    slugFromWikiTarget normalizeNFD toLowerCase title = slug := by
  have hall := not_excluded hplain (h.no_angle hplain)
  have hhtml := h.html "" "" List.not_mem_nil
  have hkept := h.replaced
  unfold wikiLinkHtml at hhtml hkept
  rw [replaceLinks_content hne hall List.not_mem_nil] at hhtml
  unfold htmlLink at hhtml
  rw [String.ofList_toList] at hhtml
  by_cases hnone : slugFromWikiTarget normalizeNFD toLowerCase title = ""
  · -- no link is made
    exfalso
    refine hkept ?_
    rw [replaceLinks_content hne hall List.not_mem_nil]
    unfold htmlLink
    rw [String.ofList_toList, if_pos hnone]
    simp [replaceLinks]
  · rwa [if_neg hnone, Option.getD_some, Option.getD_none, String.ofList_toList, String.ofList_toList,
      String.append_left_inj, String.append_right_inj, String.append_left_inj, String.append_left_inj,
      String.append_left_inj, String.append_right_inj] at hhtml

end Leads

/-- A slug on which both sides agree leads to the page. -/
theorem leadsTo_of_slug (htable : ∀ c, Js.isSpace c = true → table c = none)
    (hplain : ∀ c ∈ title.toList, c ≠ '[' ∧ c ≠ ']' ∧ c ≠ '|') (hangle : ∀ c ∈ title.toList, c ≠ '<' ∧ c ≠ '>')
    (hne : title.toList ≠ []) (hfound : slugifyBy table title ≠ "")
    (hslug : slugFromWikiTarget normalizeNFD toLowerCase title = slugifyBy table title) :
    LeadsTo normalizeNFD toLowerCase table title (slugifyBy table title) := by
  constructor
  · intro before after hbefore
    unfold wikiLinkMarkdown
    rw [replaceLinks_content hne (fun c hc => ⟨(hplain c hc).2.1, (hplain c hc).2.2, List.not_mem_nil⟩) hbefore]
    unfold markdownLink
    rw [String.ofList_toList, hslug, if_neg hfound, Option.getD_some, Option.getD_none, String.ofList_toList,
      String.ofList_toList]
  · intro before after hbefore
    unfold wikiLinkHtml
    rw [replaceLinks_content hne (not_excluded hplain hangle) hbefore]
    unfold htmlLink
    rw [String.ofList_toList, hslug, if_neg hfound, Option.getD_some, Option.getD_none, String.ofList_toList,
      String.ofList_toList]
  · intro before after hbefore
    refine (mem_linkedSlugs rfl).mpr ⟨hfound, ?_⟩
    unfold names wikiLabels
    rw [List.any_eq_true]
    refine ⟨title, List.mem_map.mpr ⟨title.toList, ?_, String.ofList_toList⟩, ?_⟩
    · rw [toList_content]
      exact labelsFrom_target hbefore hne fun c hc => (hplain c hc).2
    · rw [slugifyBy_trim htable]
      exact beq_self_eq_true _

/-- Both read the same outline off a title without angle brackets. -/
theorem leadsTo_outline (htable : ∀ c, Js.isSpace c = true → table c = none)
    (hplain : ∀ c ∈ title.toList, c ≠ '[' ∧ c ≠ ']' ∧ c ≠ '|') (hfree : slugifyBy table title ∉ taken) :
    LeadsTo normalizeNFD toLowerCase table title (uniqueSlug (slugifyBy table title) taken) ↔
      (∀ c ∈ title.toList, c ≠ '<' ∧ c ≠ '>') ∧ outline (slugTokens table title.toList) ≠ [] ∧
        outline (linkTokens normalizeNFD toLowerCase title) = outline (slugTokens table title.toList) := by
  have hne : outline (slugTokens table title.toList) ≠ [] → title.toList ≠ [] := by
    intro houtline hnil
    rw [hnil] at houtline
    exact houtline rfl
  rw [uniqueSlug_free hfree]
  constructor
  · intro h
    have hslug : slugifyBy table title ≠ "" := ((mem_linkedSlugs rfl).mp (h.lookup "" "" List.not_mem_nil)).1
    have houtline : outline (slugTokens table title.toList) ≠ [] := fun hnil => hslug (slugifyBy_eq_empty.mpr hnil)
    have hsame := h.slug_eq (hne houtline) hplain
    rw [slugFromWikiTarget_eq, slugifyBy_eq] at hsame
    have hjoined := congrArg String.toList hsame
    rw [String.toList_ofList, String.toList_ofList] at hjoined
    exact ⟨h.no_angle hplain, houtline,
      joined_inj (linkTokens_letters title) (slugTokens_letters title.toList) hjoined⟩
  · rintro ⟨hangle, houtline, hsame⟩
    refine leadsTo_of_slug htable hplain hangle (hne houtline) (fun hempty => houtline (slugifyBy_eq_empty.mp hempty)) ?_
    rw [slugFromWikiTarget_eq, slugifyBy_eq, hsame]

/-- No angle bracket makes the browser leave the title, `slugify` leaves something of it, and each of its characters
stands for the same letters on both sides, which are parted by a break on both sides or on neither. -/
structure LinkWhen (decomposition lower : Char → List Char) (table : Char → Option (List Char))
    (title : List Char) : Prop where
  target : ∀ c ∈ title, c ≠ '<' ∧ c ≠ '>'
  named : ∃ c ∈ title, outline (slugPieces table c) ≠ []
  alike : Alike (linkPieces decomposition lower) (slugPieces table) title

/-- **A link leads to the page if both sides spell the title alike, and only then if one of them has at least as many
letters for each character.** -/
theorem leadsTo_iff {normalizeNFD toLowerCase : String → String} {decomposition lower : Char → List Char}
    {isMark : Char → Bool}
    (hunicode : UnicodeTables normalizeNFD toLowerCase decomposition lower isMark) {table : Char → Option (List Char)}
    (htable : ∀ c, Js.isSpace c = true → table c = none) {title : String} {taken : List String}
    (hplain : ∀ c ∈ title.toList, c ≠ '[' ∧ c ≠ ']' ∧ c ≠ '|') (hfree : slugifyBy table title ∉ taken) :
    (LinkWhen decomposition lower table title.toList →
        LeadsTo normalizeNFD toLowerCase table title (uniqueSlug (slugifyBy table title) taken)) ∧
      (Comparable (linkPieces decomposition lower) (slugPieces table) title.toList →
        LeadsTo normalizeNFD toLowerCase table title (uniqueSlug (slugifyBy table title) taken) →
          LinkWhen decomposition lower table title.toList) := by
  have hnamed : outline (slugTokens table title.toList) ≠ [] ↔ ∃ c ∈ title.toList, outline (slugPieces table c) ≠ [] := by
    rw [slugTokens, ne_eq, outline_flatMap_nil]
    simp only [not_forall, exists_prop]
  rw [leadsTo_outline htable hplain hfree, outline_linkTokens hunicode, hnamed]
  constructor
  · rintro ⟨htarget, hletters, halike⟩
    exact ⟨htarget, hletters, outline_of_alike halike⟩
  · rintro hcomparable ⟨htarget, hletters, hsame⟩
    exact ⟨htarget, hletters, alike_of_outline hcomparable hsame⟩

namespace LinkDemo

/-- `toLowerCase` on titles that have no capital letters outside of ASCII. -/
def lowerCase (text : String) : String := String.ofList (text.toList.map Char.toLower)

def charMap (c : Char) : Option (List Char) :=
  if c = '&' then some "and".toList else if c = '%' then some "percent".toList
    else if c = 'ß' then some "ss".toList else none

end LinkDemo

theorem charMap_space (c : Char) (h : Js.isSpace c = true) : LinkDemo.charMap c = none := by
  have hne : ∀ d, Js.isSpace d = false → c ≠ d := by
    rintro d hd rfl
    rw [hd] at h
    cases h
  unfold LinkDemo.charMap
  rw [if_neg (hne '&' rfl), if_neg (hne '%' rfl), if_neg (hne 'ß' rfl)]

theorem linkToken_none {c : Char} (h : Js.isSpace c = true ∨ Js.isCombining c = true) : linkToken c.toLower = none := by
  have hlarge : ∀ n < 26, Js.isSpace (Char.ofNat ('A'.toNat + n)) = false ∧
    Js.isCombining (Char.ofNat ('A'.toNat + n)) = false := by decide
  rcases Js.toLower_eq_or c with hsame | ⟨n, hn, rfl⟩
  · rw [hsame]
    have hnat : ∀ d : Char, d.toNat = d.val.toNat := fun _ => rfl
    have hbounds : 'a'.val.toNat = 97 ∧ 'z'.val.toNat = 122 ∧ '0'.val.toNat = 48 ∧ '9'.val.toNat = 57 := by decide
    refine if_neg fun hletter => ?_
    simp only [Char.isLower, Char.isDigit, Js.isSpace, Js.isCombining, Bool.or_eq_true, Bool.and_eq_true,
      decide_eq_true_eq, beq_iff_eq, ge_iff_le, UInt32.le_iff_toNat_le, hnat] at hletter h
    omega
  · obtain ⟨hspace, hmark⟩ := hlarge n hn
    rcases h with h | h
    · rw [hspace] at h
      cases h
    · rw [hmark] at h
      cases h

theorem unicodeTables_lowerCase :
    UnicodeTables (fun text => text) LinkDemo.lowerCase (fun c => [c]) (fun c => [c.toLower]) Js.isCombining where
  decomposes text := by
    rw [List.flatMap_singleton']
    exact .refl
  lowers text := by
    rw [LinkDemo.lowerCase, String.toList_ofList, List.map_map]
    exact (List.flatMap_pure_eq_map _ _).symm
  mark c hc d hd := by
    rw [List.mem_singleton.mp hd]
    exact linkToken_none (.inr hc)
  space c hc d hd e he := by
    rw [List.mem_singleton.mp he, List.mem_singleton.mp hd]
    exact linkToken_none (.inl hc)

/-- Letters and a space. -/
theorem leadsTo_iff_words : LeadsTo (fun text => text) LinkDemo.lowerCase LinkDemo.charMap "Erste Seite"
    (uniqueSlug (slugifyBy LinkDemo.charMap "Erste Seite") []) := by
  have hplain : ("Erste Seite".toList.all fun c => c ≠ '[' ∧ c ≠ ']' ∧ c ≠ '|') = true := by decide +kernel
  have htarget : ("Erste Seite".toList.all fun c => c ≠ '<' ∧ c ≠ '>') = true := by decide +kernel
  have hlength :
    ("Erste Seite".toList.all fun c => (outline (linkPieces (fun c => [c]) (fun c => [c.toLower]) c)).length ≤
      (outline (slugPieces LinkDemo.charMap c)).length) = true := by decide +kernel
  refine (leadsTo_iff unicodeTables_lowerCase charMap_space
    (fun c hc => of_decide_eq_true (List.all_eq_true.mp hplain c hc))
    List.not_mem_nil).1
      ⟨fun c hc => of_decide_eq_true (List.all_eq_true.mp htarget c hc), ⟨'E', by decide +kernel, by decide +kernel⟩, ?_⟩
  exact alike_of_outline (.inl fun c hc => of_decide_eq_true (List.all_eq_true.mp hlength c hc)) (by decide +kernel)

/-- The full stop is a break for the browser, and nothing for the server. -/
theorem dead_link : wikiLinkMarkdown (fun text => text) LinkDemo.lowerCase "[[Node.js]]" = "[Node.js](/wiki/node-js)" ∧
    uniqueSlug (slugifyBy LinkDemo.charMap "Node.js") [] = "nodejs" ∧
    ¬LeadsTo (fun text => text) LinkDemo.lowerCase LinkDemo.charMap "Node.js"
      (uniqueSlug (slugifyBy LinkDemo.charMap "Node.js") []) := by
  have hlink :
    wikiLinkMarkdown (fun text => text) LinkDemo.lowerCase "[[Node.js]]" = "[Node.js](/wiki/node-js)" := by decide +kernel
  have hslug : uniqueSlug (slugifyBy LinkDemo.charMap "Node.js") [] = "nodejs" := by decide +kernel
  refine ⟨hlink, hslug, fun h => ?_⟩
  have hmarkdown := h.markdown "" "" List.not_mem_nil
  have hcontent : "" ++ "[[" ++ "Node.js" ++ "]]" ++ "" = "[[Node.js]]" := by decide
  rw [hslug, hcontent, hlink] at hmarkdown
  revert hmarkdown
  decide +kernel

/-- What the table spells out is a break for the browser as well. -/
example : slugFromWikiTarget (fun text => text) LinkDemo.lowerCase "Straße" = "stra-e" ∧
    slugifyBy LinkDemo.charMap "Straße" = "strasse" := by
  decide +kernel

end AdWiki.Web
