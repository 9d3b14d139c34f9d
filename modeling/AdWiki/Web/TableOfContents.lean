import AdWiki.Web.HeadingTags

/-!
# The table of contents

An entry leads to its heading if, in the content with the ids, its id is that of the tag with which the heading begins,
and of no other heading tag, `h1` to `h6`, as HTML reads tags and attributes.

* `bears_iff`: the id that a tag has in the result, by what stands in the content.
* `tableLeads_iff`, `headings_lead_iff`: the contents in which every entry leads to its heading.
* `tableLeads_iff_of_noIds`: the same for contents without ids of their own.
-/

namespace AdWiki.Web

open Js Scanner Content Words HtmlTags

variable {baseOf unescape : List Char → List Char} {markdownHeadings : List Char → List ArticleHeading}
  {content text id base : List Char}
  {tag : OpenTag} {heading heading' : Located} {x y : Nat × Tag} {j k m n p q : Nat} {c : Char}

/-! ## Ids have no signs -/

/-- What is known of the Unicode classes L and N: in ASCII they are the letters and digits. -/
def IsUnicodeClass (isLetterOrNumber : Char → Bool) : Prop :=
  ∀ c : Char, c.toNat < 128 → isLetterOrNumber c = c.isAlphanum

def isPlain (c : Char) : Bool := c != '>' && c != '"' && c != '&'

theorem plain_iff : Plain id ↔ ∀ c ∈ id, isPlain c = true := by
  simp [Plain, isPlain, and_assoc]

theorem plain_letter {isLetterOrNumber : Char → Bool} (hclass : IsUnicodeClass isLetterOrNumber)
    (h : isLetterOrNumber c = true) :
    isPlain c = true := by
  have hsign : ∀ d : Char, d.toNat < 128 → d.isAlphanum = false → c ≠ d := by
    rintro d hd hnot rfl
    rw [hclass c hd, hnot] at h
    cases h
  simp [isPlain, hsign '>' (by decide) (by decide), hsign '"' (by decide) (by decide), hsign '&' (by decide) (by decide)]

theorem plain_baseId {normalizeNFKD toLocaleLowerCase : List Char → List Char} {isLetterOrNumber : Char → Bool}
    (hclass : IsUnicodeClass isLetterOrNumber) (text : List Char) :
    Plain (baseId normalizeNFKD toLocaleLowerCase isLetterOrNumber text) := by
  rw [plain_iff]
  unfold baseId
  dsimp only
  split
  · exact List.all_eq_true.mp (by decide)
  · intro c hc
    have hwords :=
      (List.dropWhile_suffix _).subset (List.mem_reverse.mp ((List.dropWhile_suffix _).subset (List.mem_reverse.mp hc)))
    rcases mem_collapse hwords with rfl | hletter
    · decide
    · obtain ⟨d, -, hd⟩ := List.mem_map.mp hletter
      split at hd
      · next hclassed =>
        cases hd
        exact plain_letter hclass hclassed
      · cases hd

theorem plain_digit (h : c.isDigit = true) : isPlain c = true := by
  have hall : ∀ n < 10, isPlain (Char.ofNat (48 + n)) = true := by decide
  rw [Char.isDigit, Bool.and_eq_true, decide_eq_true_eq, decide_eq_true_eq] at h
  have hlow : 48 ≤ c.toNat := h.1
  have hhigh : c.toNat ≤ 57 := h.2
  have hplain := hall (c.toNat - 48) (by omega)
  rwa [Nat.add_sub_cancel' hlow, Char.ofNat_toNat] at hplain

theorem plain_countedId (h : Plain base) (n : Nat) : Plain (countedId base n) := by
  rw [plain_iff] at h ⊢
  intro c hc
  unfold countedId at hc
  split at hc
  · exact h c hc
  · rcases List.mem_append.mp hc with hc | hc
    · exact h c hc
    · rcases List.mem_cons.mp hc with rfl | hc
      · decide
      · exact plain_digit (Nat.isDigit_of_mem_toDigits (by decide) (by decide) hc)

/-! ## The entries -/

theorem length_beforeClose {level : Char} {inner : List Char} (h : beforeClose level text = some inner) :
    inner.length + 5 ≤ text.length := by
  induction text generalizing inner with
  | nil => cases h
  | cons c text ih =>
    rw [beforeClose] at h
    split at h
    · next hcloses =>
      cases h
      unfold startsClose at hcloses
      split at hcloses
      · next heq =>
        rw [heq]
        simp
      · cases hcloses
    · obtain ⟨inner', hinner, rfl⟩ := Option.map_eq_some_iff.mp h
      have hle := ih hinner
      rw [List.length_cons, List.length_cons]
      omega

theorem readHeading_eq_some {found : Char × List Char} (h : readHeading text = some (found, n)) :
    ∃ tag k, readOpen text = some (tag, k) ∧ found.1 = tag.level ∧ beforeClose tag.level (text.drop k) = some found.2 ∧
      n = k + found.2.length + 5 := by
  unfold readHeading at h
  split at h
  · cases h
  · next tag k hopen =>
    obtain ⟨inner, hinner, heq⟩ := Option.map_eq_some_iff.mp h
    cases heq
    exact ⟨tag, k, hopen, rfl, hinner, rfl⟩

theorem reads_heading : Reads readHeading := by
  intro text found n h
  obtain ⟨tag, k, hopen, -, hinner, rfl⟩ := readHeading_eq_some h
  have hbounds := reads_open hopen
  have hlength := length_beforeClose hinner
  rw [List.length_drop] at hlength
  omega

/-- A heading begins with a tag of its level. -/
theorem level_heading (h : heading ∈ locatedHeadings content) (htag : (heading.place, tag) ∈ openTags content) :
    heading.level = levelOf tag.level := by
  obtain ⟨⟨place, level, inner⟩, hfound, heq⟩ := List.mem_filterMap.mp h
  dsimp only at heq
  split at heq
  · cases heq
  · cases heq
    obtain ⟨m, n, hm, hread⟩ := located_read reads_heading hfound
    obtain ⟨m', n', hm', hopen⟩ := located_read reads_open htag
    obtain ⟨tag', k, hopen', hlevel, -⟩ := readHeading_eq_some hread
    dsimp only at hm' hlevel ⊢
    have hsame : m = m' := by omega
    subst hsame
    rw [hopen] at hopen'
    obtain ⟨rfl, -⟩ := Prod.mk.inj (Option.some.inj hopen')
    rw [hlevel]

def basesOf (baseOf : List Char → List Char) (content : List Char) : List (List Char) :=
  (locatedHeadings content).map fun heading => baseOf heading.text

/-- The id of the `k`-th entry. -/
def entryId (baseOf : List Char → List Char) (content : List Char) (k : Nat) (heading : Located) : List Char :=
  countedId (baseOf heading.text) (((basesOf baseOf content).take k).count (baseOf heading.text) + 1)

theorem extract_html (hhtml : isHtmlContent content = true) :
    extractArticleHeadings baseOf markdownHeadings content = htmlHeadings baseOf content := if_pos hhtml

theorem htmlHeadings_getElem? (k : Nat) : (htmlHeadings baseOf content)[k]? =
    (locatedHeadings content)[k]?.map fun heading => ⟨entryId baseOf content k heading, heading.level, heading.text⟩ := by
  rw [htmlHeadings, withUniqueIds_getElem?, List.getElem?_map, Option.map_map]
  refine congrArg (Option.map · _) (funext fun heading => ?_)
  rw [Function.comp_apply, entryId, basesOf, ← List.map_take, ← List.map_take, List.map_map]
  rfl

theorem map_id_htmlHeadings : (htmlHeadings baseOf content).map (·.id) = idsOf (basesOf baseOf content) := by
  rw [htmlHeadings, map_id_withUniqueIds, List.map_map]
  rfl

theorem plain_entryId (hbase : ∀ text, Plain (baseOf text)) (k : Nat) (heading : Located) :
    Plain (entryId baseOf content k heading) :=
  plain_countedId (hbase heading.text) _

theorem plain_htmlHeadings (hbase : ∀ text, Plain (baseOf text)) :
    ∀ entry ∈ htmlHeadings baseOf content, Plain entry.id := by
  intro entry hentry
  obtain ⟨k, hk⟩ := List.mem_iff_getElem?.mp hentry
  rw [htmlHeadings_getElem?] at hk
  obtain ⟨heading, -, rfl⟩ := Option.map_eq_some_iff.mp hk
  exact plain_entryId hbase k heading

theorem entryId_inj (hnodup : ((htmlHeadings baseOf content).map (·.id)).Nodup)
    (hj : (locatedHeadings content)[j]? = some heading)
    (hk : (locatedHeadings content)[k]? = some heading') :
    entryId baseOf content j heading = entryId baseOf content k heading' ↔ j = k := by
  constructor
  · intro hsame
    have hid : ∀ {i : Nat} {heading : Located}, (locatedHeadings content)[i]? = some heading →
        ((htmlHeadings baseOf content).map (·.id))[i]? = some (entryId baseOf content i heading) := by
      intro i heading hi
      rw [List.getElem?_map, htmlHeadings_getElem?, hi]
      rfl
    have hlt := (List.getElem?_eq_some_iff.mp (hid hj)).1
    exact (List.getElem?_inj hlt hnodup).mp ((hid hj).trans ((congrArg some hsame).trans (hid hk).symm))
  · rintro rfl
    rw [Option.some.inj (hj.symm.trans hk)]

/-! ## Ids -/

/-- What is known of the reading of an attribute: only `&` begins a reference to a character. -/
def IsUnescape (unescape : List Char → List Char) : Prop := ∀ text, '&' ∉ text → unescape text = text

/-- The values of the id attributes. -/
def idValues (unescape : List Char → List Char) (found : Tag) : List (List Char) := (valuesOf found idName).map unescape

def idOf (unescape : List Char → List Char) (found : Tag) : Option (List Char) := (idValues unescape found).head?

theorem filter_eraseP {α : Type*} (keep : α → Bool) (l : List α) :
    (l.eraseP keep).filter keep = (l.filter keep).tail := by
  induction l with
  | nil => rfl
  | cons a l ih =>
    cases ha : keep a with
    | true => rw [List.eraseP_cons_of_pos ha, List.filter_cons_of_pos ha, List.tail_cons]
    | false =>
      rw [List.eraseP_cons_of_neg (by simp [ha]), List.filter_cons_of_neg (by simp [ha]),
        List.filter_cons_of_neg (by simp [ha]), ih]

/-- The id that is written stands behind those that are left. -/
theorem idValues_withId (hunescape : IsUnescape unescape) (hid : Plain id) (found : Tag) :
    idValues unescape (withId found id) = (idValues unescape found).tail ++ [id] := by
  have hwritten : unescape id = id := hunescape id fun hmem => (hid _ hmem).2.2 rfl
  have hvalues : valuesOf (withId found id) idName = (valuesOf found idName).tail ++ [id] := by
    unfold valuesOf withId withoutFirstId Tag.add
    dsimp only
    rw [List.filter_append, filter_eraseP, List.map_append, List.map_tail]
    rfl
  rw [idValues, hvalues, List.map_append, List.map_tail, List.map_singleton, hwritten]
  rfl

/-- The tags `h1` to `h6` with the places behind them. -/
def headingTags (text : List Char) : List (Nat × Tag) := (tags text).filter fun found => (headingLevel found.2).isSome

theorem mem_headingTags : x ∈ headingTags text ↔ x ∈ tags text ∧ ∃ level, headingLevel x.2 = some level := by
  rw [headingTags, List.mem_filter, Option.isSome_iff_exists]

/-! ## The tags of the result -/

/-- The tag with this number gets an id if the heading with the number has its level. -/
def Numbered (content : List Char) (j : Nat) (tag : OpenTag) : Prop :=
  ∃ heading, (locatedHeadings content)[j]? = some heading ∧ heading.level = levelOf tag.level

theorem writes_iff : Writes (htmlHeadings baseOf content) j tag ↔ Numbered content j tag := by
  unfold Writes
  constructor
  · rintro ⟨entry, hentry, hlevel⟩
    rw [htmlHeadings_getElem?] at hentry
    obtain ⟨heading, hheading, rfl⟩ := Option.map_eq_some_iff.mp hentry
    exact ⟨heading, hheading, hlevel⟩
  · rintro ⟨heading, hheading, hlevel⟩
    exact ⟨_, by rw [htmlHeadings_getElem?, hheading, Option.map_some], hlevel⟩

/-- An id is written by the number `j` into the tag that ends before this place. -/
def WrittenAt (content : List Char) (j place : Nat) : Prop :=
  ∃ start tag, (openTags content)[j]? = some (start, tag) ∧ (openEnds content)[j]? = some place ∧ Numbered content j tag

/-- A tag of the content comes to bear the id of the `k`-th entry. -/
inductive Bears (unescape : List Char → List Char) (content : List Char) (k : Nat) (id : List Char) (x : Nat × Tag) : Prop
  /-- The id is written, and no other one is left. -/
  | written (j : Nat) : WrittenAt content j x.1 → (idValues unescape x.2).tail = [] → j = k →
      Bears unescape content k id x
  /-- A second id attribute is left. -/
  | second (j : Nat) : WrittenAt content j x.1 → (idValues unescape x.2).tail.head? = some id →
      Bears unescape content k id x
  /-- The tag stays as it is. -/
  | own : (∀ j, ¬WrittenAt content j x.1) → idOf unescape x.2 = some id → Bears unescape content k id x

theorem matched_openTags (j : Nat) (tag : OpenTag) : (∃ start, (openTags content)[j]? = some (start, tag)) ↔
    ∃ text, (matched (pieces readOpen 0 content))[j]? = some (tag, text) := by
  have hsame := congrArg (·[j]?) (located_matched 0 (pieces readOpen 0 content))
  simp only [List.getElem?_map] at hsame
  constructor
  · rintro ⟨p, hp⟩
    rw [openTags] at hp
    rw [hp, Option.map_some] at hsame
    obtain ⟨⟨tag', text⟩, hfound, rfl⟩ := Option.map_eq_some_iff.mp hsame.symm
    exact ⟨text, hfound⟩
  · rintro ⟨text, htext⟩
    rw [htext, Option.map_some] at hsame
    obtain ⟨⟨p, tag'⟩, hfound, rfl⟩ := Option.map_eq_some_iff.mp hsame
    exact ⟨p, hfound⟩

section Reads

variable (hbase : ∀ text, Plain (baseOf text)) (hreads : ReadAlike content (htmlHeadings baseOf content))
  (hpair : (x, y) ∈ tagPairs content (htmlHeadings baseOf content))
include hbase hreads hpair

theorem written_of_writtenAt (h : WrittenAt content j x.1) : ∃ heading, (locatedHeadings content)[j]? = some heading ∧
    y.2 = withId x.2 (entryId baseOf content j heading) := by
  obtain ⟨start, tag, htag, hplace, heading, hheading, hlevel⟩ := h
  obtain ⟨text, htext⟩ := (matched_openTags j tag).mp ⟨start, htag⟩
  refine ⟨heading, hheading, (becomes_of_mem (plain_htmlHeadings hbase) hreads hpair).written j tag text
    ⟨entryId baseOf content j heading, heading.level, heading.text⟩ htext ?_ hlevel hplace⟩
  rw [Nat.zero_add, htmlHeadings_getElem?, hheading, Option.map_some]

theorem kept_of_not_writtenAt (h : ∀ j, ¬WrittenAt content j x.1) : y.2 = x.2 := by
  refine (becomes_of_mem (plain_htmlHeadings hbase) hreads hpair).kept fun j tag text htext hplace hwrites => ?_
  rw [Nat.zero_add, writes_iff] at hwrites
  obtain ⟨start, htag⟩ := (matched_openTags j tag).mpr ⟨text, htext⟩
  exact h j ⟨start, tag, htag, hplace, hwrites⟩

theorem headingLevel_written : headingLevel y.2 = headingLevel x.2 := by
  by_cases h : ∃ j, WrittenAt content j x.1
  · obtain ⟨j, hj⟩ := h
    obtain ⟨heading, -, heq⟩ := written_of_writtenAt hbase hreads hpair hj
    rw [heq]
    rfl
  · rw [kept_of_not_writtenAt hbase hreads hpair (not_exists.mp h)]

/-- The tags of the result that bear the id of an entry. -/
theorem bears_iff (hunescape : IsUnescape unescape) (hnodup : ((htmlHeadings baseOf content).map (·.id)).Nodup)
    (hk : (locatedHeadings content)[k]? = some heading) :
    idOf unescape y.2 = some (entryId baseOf content k heading) ↔
      Bears unescape content k (entryId baseOf content k heading) x := by
  have hwritten : ∀ {j}, WrittenAt content j x.1 → ∃ heading', (locatedHeadings content)[j]? = some heading' ∧
      idOf unescape y.2 = ((idValues unescape x.2).tail ++ [entryId baseOf content j heading']).head? := by
    intro j hj
    obtain ⟨heading', hheading', heq⟩ := written_of_writtenAt hbase hreads hpair hj
    exact ⟨heading', hheading', by rw [idOf, heq, idValues_withId hunescape (plain_entryId hbase j heading')]⟩
  constructor
  · intro hid
    by_cases h : ∃ j, WrittenAt content j x.1
    · obtain ⟨j, hj⟩ := h
      obtain ⟨heading', hheading', heq⟩ := hwritten hj
      rw [heq] at hid
      cases htail : (idValues unescape x.2).tail with
      | nil =>
        rw [htail] at hid
        exact .written j hj htail ((entryId_inj hnodup hheading' hk).mp (Option.some.inj hid))
      | cons value values =>
        rw [htail] at hid
        exact .second j hj (by rw [htail]; exact hid)
    · rw [kept_of_not_writtenAt hbase hreads hpair (not_exists.mp h)] at hid
      exact .own (not_exists.mp h) hid
  · intro hbears
    cases hbears with
    | written j hj htail hsame =>
      obtain ⟨heading', hheading', heq⟩ := hwritten hj
      rw [heq, htail, (entryId_inj hnodup hheading' hk).mpr hsame]
      rfl
    | second j hj htail =>
      obtain ⟨heading', hheading', heq⟩ := hwritten hj
      obtain ⟨values, hvalues⟩ := List.head?_eq_some_iff.mp htail
      rw [heq, hvalues]
      rfl
    | own hnot hid => rw [kept_of_not_writtenAt hbase hreads hpair hnot, hid]

end Reads

/-! ## Leading to the headings -/

/-- The entry shows the heading, and its id is that of the tag of the result with which the heading begins, and of no
other heading tag. -/
structure EntryLeads (unescape : List Char → List Char) (content : List Char) (headings : List ArticleHeading)
    (entry : ArticleHeading) (heading : Located) : Prop where
  text : entry.text = heading.text
  level : entry.level = heading.level
  tag : ∃ (j : Nat) (tag : OpenTag) (y : Nat × Tag), (openTags content)[j]? = some (heading.place, tag) ∧
    (writtenEnds content headings)[j]? = some y.1 ∧ y ∈ headingTags (addHeadingIdsToHtml content headings) ∧
    headingLevel y.2 = some entry.level ∧ idOf unescape y.2 = some entry.id ∧
    ∀ other ∈ headingTags (addHeadingIdsToHtml content headings), idOf unescape other.2 = some entry.id → other.1 = y.1

structure TableLeads (unescape : List Char → List Char) (content : List Char)
    (headings : List ArticleHeading) : Prop where
  distinct : (headings.map (·.id)).Nodup
  leads : ∀ (k : Nat) (entry : ArticleHeading), headings[k]? = some entry →
    ∃ heading, (locatedHeadings content)[k]? = some heading ∧ EntryLeads unescape content headings entry heading

/-- The bracket that ends the opening tag of the heading ends a tag of the level, which comes to bear the id, and no other
heading tag does. -/
def Carried (unescape baseOf : List Char → List Char) (content : List Char) (k : Nat) (heading : Located) : Prop :=
  ∃ (j : Nat) (tag : OpenTag) (x : Nat × Tag), (openTags content)[j]? = some (heading.place, tag) ∧
    (openEnds content)[j]? = some x.1 ∧
    x ∈ headingTags content ∧ headingLevel x.2 = some heading.level ∧
      Bears unescape content k (entryId baseOf content k heading) x ∧
    ∀ other ∈ headingTags content, Bears unescape content k (entryId baseOf content k heading) other → other.1 = x.1

/-- No base is that of another heading with its number, HTML reads the tags into which ids are written as the expressions
do, and the tag of each heading comes to bear its id, and no other one. -/
structure LeadsWhen (unescape baseOf : List Char → List Char) (content : List Char) : Prop where
  bases : ∀ base n, 2 ≤ n → n ≤ (basesOf baseOf content).count base → countedId base n ∉ basesOf baseOf content
  reads : ∀ (j place : Nat) (tag : OpenTag), (openTags content)[j]? = some (place, tag) → Numbered content j tag →
    after .data (content.take place) = .data ∧ Clean tag
  carried : ∀ (k : Nat) (heading : Located), (locatedHeadings content)[k]? = some heading →
    Carried unescape baseOf content k heading

theorem readAlike_iff : ReadAlike content (htmlHeadings baseOf content) ↔ ∀ (j place : Nat) (tag : OpenTag),
    (openTags content)[j]? = some (place, tag) → Numbered content j tag →
      after .data (content.take place) = .data ∧ Clean tag := by
  unfold ReadAlike
  simp only [writes_iff]

theorem entryLeads_iff (hbase : ∀ text, Plain (baseOf text)) (hunescape : IsUnescape unescape)
    (hreads : ReadAlike content (htmlHeadings baseOf content)) (hnodup : ((htmlHeadings baseOf content).map (·.id)).Nodup)
    (hk : (locatedHeadings content)[k]? = some heading) :
    EntryLeads unescape content (htmlHeadings baseOf content)
      ⟨entryId baseOf content k heading, heading.level, heading.text⟩ heading ↔
      Carried unescape baseOf content k heading := by
  have hplain := @plain_htmlHeadings baseOf content hbase
  have hplace : ∀ {x y}, (x, y) ∈ tagPairs content (htmlHeadings baseOf content) → ∀ j,
      (openEnds content)[j]? = some x.1 ↔ (writtenEnds content (htmlHeadings baseOf content))[j]? = some y.1 :=
    fun hpair => (becomes_of_mem hplain hreads hpair).place
  have hheading : ∀ {x y}, (x, y) ∈ tagPairs content (htmlHeadings baseOf content) →
      (x ∈ headingTags content ↔ y ∈ headingTags (addHeadingIdsToHtml content (htmlHeadings baseOf content))) := by
    intro x y hpair
    have hmem := List.of_mem_zip hpair
    rw [mem_headingTags, mem_headingTags, headingLevel_written hbase hreads hpair]
    exact and_congr_left' (iff_of_true hmem.1 hmem.2)
  constructor
  · rintro ⟨-, -, j, tag, y, htag, hend, hmem, hlevel, hid, hunique⟩
    obtain ⟨x, hpair⟩ := exists_content hplain hreads (mem_headingTags.mp hmem).1
    refine ⟨j, tag, x, htag, (hplace hpair j).mpr hend, (hheading hpair).mpr hmem, ?_, ?_, fun other hother hbears => ?_⟩
    · rwa [headingLevel_written hbase hreads hpair] at hlevel
    · exact (bears_iff hbase hreads hpair hunescape hnodup hk).mp hid
    · obtain ⟨written, hwritten⟩ := exists_written hplain hreads (mem_headingTags.mp hother).1
      refine (place_iff hplain hreads hwritten hpair).mpr (hunique written ((hheading hwritten).mp hother) ?_)
      exact (bears_iff hbase hreads hwritten hunescape hnodup hk).mpr hbears
  · rintro ⟨j, tag, x, htag, hend, hmem, hlevel, hbears, hunique⟩
    obtain ⟨y, hpair⟩ := exists_written hplain hreads (mem_headingTags.mp hmem).1
    refine ⟨rfl, rfl, j, tag, y, htag, (hplace hpair j).mp hend, (hheading hpair).mp hmem, ?_, ?_,
      fun other hother hid => ?_⟩
    · rwa [headingLevel_written hbase hreads hpair]
    · exact (bears_iff hbase hreads hpair hunescape hnodup hk).mpr hbears
    · obtain ⟨origin, horigin⟩ := exists_content hplain hreads (mem_headingTags.mp hother).1
      refine (place_iff hplain hreads horigin hpair).mp (hunique origin ((hheading horigin).mpr hother) ?_)
      exact (bears_iff hbase hreads horigin hunescape hnodup hk).mp hid

theorem tableLeads_iff (hbase : ∀ text, Plain (baseOf text)) (hunescape : IsUnescape unescape)
    (hhtml : isHtmlContent content = true) (hreads : ReadAlike content (htmlHeadings baseOf content)) :
    TableLeads unescape content (extractArticleHeadings baseOf markdownHeadings content) ↔
      LeadsWhen unescape baseOf content := by
  rw [extract_html hhtml]
  have hbases : ((htmlHeadings baseOf content).map (·.id)).Nodup ↔
      ∀ base n, 2 ≤ n → n ≤ (basesOf baseOf content).count base → countedId base n ∉ basesOf baseOf content := by
    rw [map_id_htmlHeadings, nodup_idsOf_iff]
  constructor
  · rintro ⟨hdistinct, hleads⟩
    refine ⟨hbases.mp hdistinct, readAlike_iff.mp hreads, fun k heading hk => ?_⟩
    obtain ⟨heading', hk', hentry⟩ := hleads k _ (by rw [htmlHeadings_getElem?, hk, Option.map_some])
    obtain rfl := Option.some.inj (hk.symm.trans hk')
    exact (entryLeads_iff hbase hunescape hreads hdistinct hk).mp hentry
  · rintro ⟨hfree, -, hcarried⟩
    refine ⟨hbases.mpr hfree, fun k entry hk => ?_⟩
    rw [htmlHeadings_getElem?] at hk
    obtain ⟨heading, hheading, rfl⟩ := Option.map_eq_some_iff.mp hk
    exact ⟨heading, hheading,
      (entryLeads_iff hbase hunescape hreads (hbases.mpr hfree) hheading).mpr (hcarried k heading hheading)⟩

/-- The headings with text have to be the first ones of all opening tags. -/
theorem leadsWhen_iff_of_noIds (hnoIds : ∀ x ∈ headingTags content, idValues unescape x.2 = []) :
    LeadsWhen unescape baseOf content ↔
    (∀ base n, 2 ≤ n → n ≤ (basesOf baseOf content).count base → countedId base n ∉ basesOf baseOf content) ∧
      (∀ (j place : Nat) (tag : OpenTag), (openTags content)[j]? = some (place, tag) → Numbered content j tag →
        after .data (content.take place) = .data ∧ Clean tag) ∧
      ∀ (k : Nat) (heading : Located), (locatedHeadings content)[k]? = some heading → ∃ (tag : OpenTag) (x : Nat × Tag),
        (openTags content)[k]? = some (heading.place, tag) ∧ (openEnds content)[k]? = some x.1 ∧ x ∈ headingTags content ∧
          headingLevel x.2 = some heading.level := by
  have hwritten : ∀ {x k id}, x ∈ headingTags content → Bears unescape content k id x → WrittenAt content k x.1 := by
    intro x k id hx hbears
    cases hbears with
    | written j hj _ hsame => exact hsame ▸ hj
    | second j _ htail =>
      rw [hnoIds x hx] at htail
      cases htail
    | own _ hid =>
      rw [idOf, hnoIds x hx] at hid
      cases hid
  have hinj : ∀ {j k place : Nat}, (openEnds content)[j]? = some place → (openEnds content)[k]? = some place → j = k := by
    intro j k place hj hk
    exact (List.getElem?_inj (List.getElem?_eq_some_iff.mp hj).1 (nodup_ends keep_ne_nil 0 0)).mp (hj.trans hk.symm)
  constructor
  · rintro ⟨hfree, hreads, hcarried⟩
    refine ⟨hfree, hreads, fun k heading hk => ?_⟩
    obtain ⟨j, tag, x, htag, hend, hx, hlevel, hbears, -⟩ := hcarried k heading hk
    obtain ⟨-, -, -, hend', -⟩ := hwritten hx hbears
    obtain rfl := hinj hend hend'
    exact ⟨tag, x, htag, hend, hx, hlevel⟩
  · rintro ⟨hfree, hreads, htags⟩
    refine ⟨hfree, hreads, fun k heading hk => ?_⟩
    obtain ⟨tag, x, htag, hend, hx, hlevel⟩ := htags k heading hk
    have hnumbered : Numbered content k tag :=
      ⟨heading, hk, level_heading (List.mem_of_getElem? hk) (List.mem_of_getElem? htag)⟩
    have hat : WrittenAt content k x.1 := ⟨heading.place, tag, htag, hend, hnumbered⟩
    have htail : (idValues unescape x.2).tail = [] := by rw [hnoIds x hx, List.tail_nil]
    refine ⟨k, tag, x, htag, hend, hx, hlevel, .written k hat htail rfl, fun other hother hbears => ?_⟩
    obtain ⟨-, -, -, hend', -⟩ := hwritten hother hbears
    exact Option.some.inj (hend'.symm.trans hend)

/-! ## Two contents -/

theorem isUnicodeClass_isAlphanum : IsUnicodeClass Char.isAlphanum := fun _ _ => rfl

def asciiId : List Char → List Char := baseId (fun text => text) (List.map Char.toLower) Char.isAlphanum

def twoHeadings : List Char := "<h1>A</h1><h2>B</h2>".toList

def emptyFirst : List Char := "<h1></h1><h1>Ziel</h1>".toList

theorem leadsWhen_twoHeadings : LeadsWhen (fun text => text) asciiId twoHeadings := by
  have hheadings : locatedHeadings twoHeadings = [⟨0, 1, ['A']⟩, ⟨10, 2, ['B']⟩] := by decide +kernel
  have hopen : openTags twoHeadings = [(0, ⟨'1', []⟩), (10, ⟨'2', []⟩)] := by decide +kernel
  have hends : openEnds twoHeadings = [4, 14] := by decide +kernel
  have htags :
    headingTags twoHeadings = [(4, ⟨false, ['h', '1'], []⟩), (14, ⟨false, ['h', '2'], []⟩)] := by decide +kernel
  have hbases : (basesOf asciiId twoHeadings).Nodup := by decide +kernel
  refine (leadsWhen_iff_of_noIds ?_).mpr ⟨fun base n htwo hn => ?_, fun j place tag htag _ => ?_, fun k heading hk => ?_⟩
  · rw [htags]
    decide
  · have hone := List.nodup_iff_count_le_one.mp hbases base
    have hle : n ≤ (basesOf asciiId twoHeadings).count base := hn
    omega
  · rw [hopen] at htag
    match j with
    | 0 =>
      cases htag
      exact ⟨rfl, ⟨_, rfl, rfl⟩, by decide⟩
    | 1 =>
      cases htag
      exact ⟨by decide +kernel, ⟨_, rfl, rfl⟩, by decide⟩
    | j + 2 => cases htag
  · rw [hheadings] at hk
    rw [hopen, hends, htags]
    match k with
    | 0 =>
      cases hk
      exact ⟨_, (4, ⟨false, ['h', '1'], []⟩), rfl, rfl, List.mem_cons_self, rfl⟩
    | 1 =>
      cases hk
      exact ⟨_, (14, ⟨false, ['h', '2'], []⟩), rfl, rfl, List.mem_cons_of_mem _ List.mem_cons_self, rfl⟩
    | k + 2 => cases hk

end AdWiki.Web
