import AdWiki.Lib.HtmlTags
import AdWiki.Web.ArticleHeadings

/-!
# The tags of an article

The ids are written by a scan of its own, which counts what an expression takes for opening tags. Where HTML reads the
tags into which an id is written as the expressions do, its tags in the result are those of the content with these ids.

* `Clean`: what makes HTML and the expressions read a tag alike.
* `forall₂_becomes`: the tags of the result, one for each tag of the content.
-/

namespace AdWiki.Web

open Js Scanner Content HtmlTags

variable {text body rest id : List Char} {tag : OpenTag} {found : Tag} {headings : List ArticleHeading}
  {p q m n i j e : Nat} {c : Char}

/-! ## What the expressions find -/

theorem opens_eq_some : opens text = some tag ↔
    ∃ h, text = '<' :: h :: tag.level :: tag.attributes ∧ h.toLower = 'h' ∧ isLevel tag.level = true ∧
      startsWord tag.attributes = false := by
  constructor
  · intro h
    unfold opens at h
    split at h
    · next letter level attributes =>
      split at h
      · next hform =>
        cases h
        simp only [Bool.and_eq_true, beq_iff_eq, Bool.not_eq_true'] at hform
        exact ⟨letter, rfl, hform.1.1, hform.1.2, hform.2⟩
      · cases h
    · cases h
  · rintro ⟨h, rfl, hh, hlevel, hword⟩
    simp [opens, hh, hlevel, hword]

theorem takeWhile_until (h : c ∉ body) (rest : List Char) : (body ++ c :: rest).takeWhile (· != c) = body := by
  rw [List.takeWhile_append_of_pos]
  · simp
  · intro d hd
    have hne : d ≠ c := fun heq => h (heq ▸ hd)
    simpa using hne

/-- A tag ends at the first bracket. -/
theorem readOpen_delimited (h : '>' ∉ body) (rest : List Char) :
    readOpen (body ++ '>' :: rest) = (opens body).map fun tag => (tag, body.length + 1) := by
  rw [readOpen, if_pos (List.mem_append_right _ List.mem_cons_self), takeWhile_until h]

theorem readOpen_eq_some : readOpen text = some (tag, n) ↔
    ∃ body rest, text = body ++ '>' :: rest ∧ '>' ∉ body ∧ opens body = some tag ∧ n = body.length + 1 := by
  constructor
  · intro h
    have hmem : '>' ∈ text := by
      by_contra hnot
      rw [readOpen, if_neg hnot] at h
      cases h
    obtain ⟨body, rest, rfl, hbody⟩ := List.eq_append_cons_of_mem hmem
    rw [readOpen_delimited hbody] at h
    obtain ⟨tag', htag, heq⟩ := Option.map_eq_some_iff.mp h
    cases heq
    exact ⟨body, rest, rfl, hbody, htag, rfl⟩
  · rintro ⟨body, rest, rfl, hbody, htag, rfl⟩
    rw [readOpen_delimited hbody, htag]
    rfl

theorem reads_open : Reads readOpen := by
  intro text tag n h
  obtain ⟨body, rest, rfl, -, -, rfl⟩ := readOpen_eq_some.mp h
  rw [List.length_append, List.length_cons]
  omega

theorem subset_removeFirst {read : List Char → Option (List Char)}
    (hread : ∀ {text rest}, read text = some rest → ∀ c ∈ rest, c ∈ text)
    (text : List Char) : ∀ c ∈ removeFirst read text, c ∈ text := by
  induction text with
  | nil => exact fun c hc => hc
  | cons d text ih =>
    intro c hc
    rw [removeFirst] at hc
    cases hfound : read (d :: text) with
    | some rest =>
      rw [hfound] at hc
      exact hread hfound c hc
    | none =>
      rw [hfound] at hc
      rcases List.mem_cons.mp hc with rfl | hc
      · exact List.mem_cons_self
      · exact List.mem_cons_of_mem d (ih c hc)

theorem afterValue_subset (h : afterValue text = some rest) : ∀ c ∈ rest, c ∈ text := by
  intro c hc
  unfold afterValue at h
  split at h
  · split at h
    · cases h
      exact List.mem_cons_of_mem _ ((List.dropWhile_suffix _).subset (List.mem_of_mem_drop hc))
    · cases h
      exact List.mem_cons_of_mem _ ((List.dropWhile_suffix _).subset hc)
  · split at h
    · cases h
      exact List.mem_cons_of_mem _ ((List.dropWhile_suffix _).subset (List.mem_of_mem_drop hc))
    · cases h
      exact List.mem_cons_of_mem _ ((List.dropWhile_suffix _).subset hc)
  · split at h
    · cases h
    · cases h
      exact List.mem_cons_of_mem _ ((List.dropWhile_suffix _).subset hc)
  · cases h

theorem afterId_subset (h : afterId text = some rest) : ∀ c ∈ rest, c ∈ text := by
  intro c hc
  unfold afterId at h
  split at h
  · cases h
  · next d cs =>
    split at h
    · obtain ⟨value, hname, hvalue⟩ := Option.bind_eq_some_iff.mp h
      have hmem := afterValue_subset hvalue c hc
      unfold afterName at hname
      split at hname
      · next i e value' heq =>
        split at hname
        · cases hname
          have hsuffix : c ∈ cs.dropWhile isSpace := by
            rw [heq]
            exact List.mem_cons_of_mem _ (List.mem_cons_of_mem _ (List.mem_cons_of_mem _ hmem))
          exact List.mem_cons_of_mem d ((List.dropWhile_suffix _).subset hsuffix)
        · cases hname
      · cases hname
    · cases h

/-- A tag with its first id attribute taken out, up to the bracket. -/
def withoutId (tag : OpenTag) : List Char := '<' :: 'h' :: tag.level :: removeId tag.attributes

theorem not_mem_withoutId (hlevel : isLevel tag.level = true) (h : '>' ∉ tag.attributes) : '>' ∉ withoutId tag := by
  have hdigit : '>' ≠ tag.level := by
    intro heq
    rw [← heq] at hlevel
    cases hlevel
  have hrest : '>' ∉ removeId tag.attributes := fun hmem => h (subset_removeFirst afterId_subset _ _ hmem)
  unfold withoutId
  simp only [List.mem_cons, not_or]
  exact ⟨by decide, by decide, hdigit, hrest⟩

/-- The opening tags that the expression finds, with their places. -/
def openTags (content : List Char) : List (Nat × OpenTag) := located 0 (pieces readOpen 0 content)

/-- The places behind them. -/
def openEnds (content : List Char) : List Nat := ends keep 0 0 (pieces readOpen 0 content)

/-- The places behind them in the result. -/
def writtenEnds (content : List Char) (headings : List ArticleHeading) : List Nat :=
  ends (writeTag headings) 0 0 (pieces readOpen 0 content)

/-- The id of the heading with this number goes into the tag with the number. -/
def Writes (headings : List ArticleHeading) (j : Nat) (tag : OpenTag) : Prop :=
  ∃ heading, headings[j]? = some heading ∧ heading.level = levelOf tag.level

theorem writeTag_written {heading : ArticleHeading} (hj : headings[j]? = some heading)
    (hlevel : heading.level = levelOf tag.level)
    (text : List Char) : writeTag headings j tag text = withoutId tag ++ newId heading.id ++ ['>'] := by
  rw [writeTag, hj]
  exact if_neg (not_not_intro hlevel)

theorem writeTag_kept (h : ¬Writes headings j tag) (text : List Char) : writeTag headings j tag text = text := by
  rw [writeTag]
  split
  · rfl
  · next heading hj => exact if_pos fun hlevel => h ⟨heading, hj, hlevel⟩

theorem readOpen_text (h : readOpen text = some (tag, n)) :
    ∃ letter : Char, letter.toLower = 'h' ∧ isLevel tag.level = true ∧
    '>' ∉ tag.attributes ∧ text.take n = '<' :: letter :: tag.level :: tag.attributes ++ ['>'] := by
  obtain ⟨body, rest, rfl, hbody, htag, rfl⟩ := readOpen_eq_some.mp h
  obtain ⟨letter, rfl, hletter, hlevel, -⟩ := opens_eq_some.mp htag
  refine ⟨letter, hletter, hlevel, ?_, ?_⟩
  · exact fun hmem => hbody (List.mem_cons_of_mem _ (List.mem_cons_of_mem _ (List.mem_cons_of_mem _ hmem)))
  · rw [List.append_cons]
    exact List.take_left' (by simp)

theorem matched_text {content : List Char} {found : OpenTag × List Char}
    (h : found ∈ matched (pieces readOpen 0 content)) :
    ∃ letter : Char, letter.toLower = 'h' ∧ isLevel found.1.level = true ∧ '>' ∉ found.1.attributes ∧
      found.2 = '<' :: letter :: found.1.level :: found.1.attributes ++ ['>'] := by
  obtain ⟨place, n, hread, htext⟩ := matched_read reads_open h
  rw [htext]
  exact readOpen_text hread

theorem keep_ne_nil {content : List Char} :
    ∀ i, ∀ found ∈ matched (pieces readOpen 0 content), keep i found.1 found.2 ≠ [] := by
  intro i found hfound
  obtain ⟨letter, -, -, -, htext⟩ := matched_text hfound
  rw [keep, htext]
  exact List.cons_ne_nil _ _

theorem writeTag_ne_nil {content : List Char} (headings : List ArticleHeading) :
    ∀ i, ∀ found ∈ matched (pieces readOpen 0 content), writeTag headings i found.1 found.2 ≠ [] := by
  intro i found hfound
  by_cases hwrites : Writes headings i found.1
  · obtain ⟨heading, hheading, hlevel⟩ := hwrites
    rw [writeTag_written hheading hlevel]
    exact List.cons_ne_nil _ _
  · rw [writeTag_kept hwrites]
    exact keep_ne_nil i found hfound

/-! ## What HTML reads -/

/-- The name of the attribute. -/
def idName : List Char := ['i', 'd']

/-- The tag without its first id attribute. -/
def withoutFirstId (found : Tag) : Tag := { found with attributes := found.attributes.eraseP (·.1 == idName) }

/-- What becomes of the tag when an id is written. -/
def withId (found : Tag) (id : List Char) : Tag := (withoutFirstId found).add idName id

/-- What the expression finds, up to the bracket. -/
def openBody (tag : OpenTag) : List Char := '<' :: 'h' :: tag.level :: tag.attributes

/-- The bracket ends a tag, of which the first id attribute is taken out, and what is left does not wait for a value. -/
structure Clean (tag : OpenTag) : Prop where
  reads : ∃ found, closed (after .data (openBody tag)) = some found ∧
    closed (after .data (withoutId tag)) = some (withoutFirstId found)
  complete : ¬Waits (after .data (withoutId tag))

/-- No sign that ends a value, and no reference to a character. -/
def Plain (id : List Char) : Prop := ∀ c ∈ id, c ≠ '>' ∧ c ≠ '"' ∧ c ≠ '&'

theorem not_mem_newId (h : Plain id) : '>' ∉ newId id := by
  intro hmem
  rw [newId] at hmem
  simp only [List.mem_cons, List.mem_append, List.not_mem_nil, or_false] at hmem
  have hid : '>' ∉ id := fun hmem => (h _ hmem).1 rfl
  simp [hid] at hmem

/-- Behind a tag whose name begins with `h` there is markup. -/
theorem content_of_prefix (hclosing : found.closing = false) (hname : ['h'] <+: found.name) : content found = .data := by
  obtain ⟨name, hname⟩ := hname
  have hnot : ∀ element ∈ "plaintext".toList :: rawTextElements, found.name ≠ element := by
    rw [← hname]
    intro element helement heq
    have hall : ("plaintext".toList :: rawTextElements).all (fun element => element.head? != some 'h') = true := by decide
    have hhead := List.all_eq_true.mp hall element helement
    rw [← heq] at hhead
    cases hhead
  rw [HtmlTags.content, if_neg (by simp [hclosing]), if_neg (hnot _ List.mem_cons_self),
    if_neg fun hmem => hnot _ (List.mem_cons_of_mem _ hmem) rfl]

/-- What is read behind `<h` up to a bracket belongs to an opening tag, behind which there is markup. -/
theorem read_heading (hbody : '>' ∉ body) (h : closed (after .data ('<' :: 'h' :: body)) = some found) :
    found.closing = false ∧ content found = .data := by
  obtain ⟨tag, hcurrent, hclosing, hname⟩ := current_after (s := .tagName ⟨false, ['h'], []⟩) rfl hbody
  obtain rfl := Option.some.inj ((current_of_closed h).symm.trans hcurrent)
  exact ⟨hclosing, content_of_prefix hclosing hname⟩

/-- A large letter is read as a small one. -/
theorem after_letter {letter : Char} (h : letter.toLower = 'h') (body : List Char) :
    after .data ('<' :: letter :: body) = after .data ('<' :: 'h' :: body) := by
  have hstep : step .tagOpen letter = step .tagOpen 'h' := by
    have hsign : ∀ d : Char, d.toLower ≠ 'h' → letter ≠ d := fun d hd heq => hd (heq ▸ h)
    have halpha : letter.isAlpha = true := by
      have hlarge : ∀ n < 26, (Char.ofNat ('A'.toNat + n)).isAlpha = true := by decide
      rcases toLower_eq_or letter with hsame | ⟨n, hn, rfl⟩
      · rw [← hsame, h]
        decide
      · exact hlarge n hn
    rw [step_of_ne (hsign '>' (by decide)), next, if_neg (hsign '!' (by decide)), if_neg (hsign '/' (by decide)),
      if_pos halpha, h]
    rfl
  show after (step .tagOpen letter) body = after (step .tagOpen 'h') body
  rw [hstep]

theorem read_openBody {letter : Char} (hletter : letter.toLower = 'h') (hlevel : isLevel tag.level = true)
    (hattributes : '>' ∉ tag.attributes) (hfound : closed (after .data (openBody tag)) = some found) :
    found.closing = false ∧ after .data ('<' :: letter :: tag.level :: tag.attributes ++ ['>']) = .data ∧
      ∀ place, tagsFrom place .data ('<' :: letter :: tag.level :: tag.attributes ++ ['>']) =
        [(place + ('<' :: letter :: tag.level :: tag.attributes ++ ['>']).length, found)] := by
  have hbody : '>' ∉ tag.level :: tag.attributes := by
    rw [List.mem_cons, not_or]
    refine ⟨fun heq => ?_, hattributes⟩
    rw [← heq] at hlevel
    cases hlevel
  have hwhole : '>' ∉ '<' :: letter :: tag.level :: tag.attributes := by
    rw [List.mem_cons, List.mem_cons, not_or, not_or]
    refine ⟨by decide, fun heq => ?_, hbody⟩
    rw [← heq] at hletter
    exact absurd hletter (by decide)
  obtain ⟨hclosing, hcontent⟩ := read_heading hbody hfound
  rw [openBody, ← after_letter hletter] at hfound
  refine ⟨hclosing, ?_, fun place => ?_⟩
  · rw [after_closed hfound, hcontent]
  · rw [tagsFrom_closed hwhole hfound hclosing, List.length_append, Nat.add_assoc]
    rfl

theorem read_written (hlevel : isLevel tag.level = true) (hattributes : '>' ∉ tag.attributes)
    (hclosing : found.closing = false)
    (hleft : closed (after .data (withoutId tag)) = some (withoutFirstId found))
    (hwaits : ¬Waits (after .data (withoutId tag))) (hid : Plain id) :
    after .data (withoutId tag ++ newId id ++ ['>']) = .data ∧
      ∀ place, tagsFrom place .data (withoutId tag ++ newId id ++ ['>']) =
        [(place + (withoutId tag ++ newId id ++ ['>']).length, withId found id)] := by
  have hname : IsName idName := by
    refine ⟨List.cons_ne_nil _ _, fun c hc => ?_⟩
    rcases List.mem_pair.mp hc with rfl | rfl <;> decide
  have hquote : '"' ∉ id := fun hmem => (hid _ hmem).2.1 rfl
  have hwritten : after .data (withoutId tag ++ newId id) = .afterQuoted (withId found id) := by
    rw [after_append]
    exact after_attribute hleft hwaits hname hquote
  have hclosed : closed (after .data (withoutId tag ++ newId id)) = some (withId found id) := by
    rw [hwritten]
    rfl
  have hnot : '>' ∉ withoutId tag ++ newId id := by
    rw [List.mem_append, not_or]
    exact ⟨not_mem_withoutId hlevel hattributes, not_mem_newId hid⟩
  have hbody : '>' ∉ tag.level :: removeId tag.attributes := fun hmem =>
    not_mem_withoutId hlevel hattributes (List.mem_cons_of_mem _ (List.mem_cons_of_mem _ hmem))
  have hcontent : content (withoutFirstId found) = .data := (read_heading hbody hleft).2
  refine ⟨?_, fun place => ?_⟩
  · rw [after_closed hclosed]
    exact hcontent
  · rw [tagsFrom_closed hnot hclosed hclosing, List.length_append, List.length_append, List.length_append, Nat.add_assoc]
    rfl

/-! ## The tags of the result -/

/-- A tag of the content and one of the result are at the same ones of the places behind what the expression finds, and
differ in the id that is written there. -/
structure Becomes (headings : List ArticleHeading) (ms : List (OpenTag × List Char)) (es es' : List Nat) (i : Nat)
    (x y : Nat × Tag) : Prop where
  place : ∀ j : Nat, es[j]? = some x.1 ↔ es'[j]? = some y.1
  written : ∀ (j : Nat) (tag : OpenTag) (text : List Char) (heading : ArticleHeading), ms[j]? = some (tag, text) →
    headings[i + j]? = some heading → heading.level = levelOf tag.level → es[j]? = some x.1 → y.2 = withId x.2 heading.id
  kept : (∀ (j : Nat) (tag : OpenTag) (text : List Char), ms[j]? = some (tag, text) → es[j]? = some x.1 →
    ¬Writes headings (i + j) tag) →
    y.2 = x.2

variable {ms : List (OpenTag × List Char)} {es es' : List Nat} {x y : Nat × Tag}

/-- Tags before everything that the expression finds. -/
theorem Becomes.of_lt (hes : ∀ e ∈ es, x.1 < e) (hes' : ∀ e ∈ es', y.1 < e) (h : y.2 = x.2) :
    Becomes headings ms es es' i x y where
  place _ := iff_of_false (fun heq => Nat.lt_irrefl _ (hes _ (List.mem_of_getElem? heq)))
    fun heq => Nat.lt_irrefl _ (hes' _ (List.mem_of_getElem? heq))
  written _ _ _ _ _ _ _ heq := absurd (hes _ (List.mem_of_getElem? heq)) (Nat.lt_irrefl _)
  kept _ := h

/-- Tags behind what the expression has found. -/
theorem Becomes.cons (m : OpenTag × List Char) (hp : p < x.1) (hq : q < y.1)
    (h : Becomes headings ms es es' (i + 1) x y) :
    Becomes headings (m :: ms) (p :: es) (q :: es') i x y where
  place j := by
    cases j with
    | zero => exact iff_of_false (fun heq => Nat.ne_of_lt hp (Option.some.inj heq)) fun heq =>
      Nat.ne_of_lt hq (Option.some.inj heq)
    | succ j => exact h.place j
  written j tag text heading hm hheading hlevel heq := by
    cases j with
    | zero => exact absurd (Option.some.inj heq) (Nat.ne_of_lt hp)
    | succ j =>
      rw [Nat.add_comm j 1, ← Nat.add_assoc] at hheading
      exact h.written j tag text heading hm hheading hlevel heq
  kept hnone := by
    refine h.kept fun j tag text hm heq => ?_
    rw [Nat.add_assoc, Nat.add_comm 1 j]
    exact hnone (j + 1) tag text hm heq

/-- Tags up to the end of what the expression finds. -/
theorem Becomes.of_le {m : OpenTag × List Char} (hx : x.1 ≤ p) (hy : y.1 ≤ q) (hsame : x.1 = p ↔ y.1 = q)
    (hes : ∀ e ∈ es, p < e)
    (hes' : ∀ e ∈ es', q < e)
    (hwritten : ∀ heading, headings[i]? = some heading → heading.level = levelOf m.1.level → x.1 = p →
      y.2 = withId x.2 heading.id) (hkept : (x.1 = p → ¬Writes headings i m.1) → y.2 = x.2) :
    Becomes headings (m :: ms) (p :: es) (q :: es') i x y where
  place j := by
    cases j with
    | zero =>
      constructor
      · intro heq
        exact congrArg some (hsame.mp (Option.some.inj heq).symm).symm
      · intro heq
        exact congrArg some (hsame.mpr (Option.some.inj heq).symm).symm
    | succ j =>
      exact iff_of_false (fun heq => Nat.not_lt_of_le hx (hes _ (List.mem_of_getElem? heq)))
        fun heq => Nat.not_lt_of_le hy (hes' _ (List.mem_of_getElem? heq))
  written j tag text heading hm hheading hlevel heq := by
    cases j with
    | zero =>
      obtain rfl := Option.some.inj hm
      exact hwritten heading hheading hlevel (Option.some.inj heq).symm
    | succ j => exact absurd (hes _ (List.mem_of_getElem? heq)) (Nat.not_lt_of_le hx)
  kept hnone := hkept fun heq => hnone 0 m.1 m.2 rfl (congrArg some heq.symm)

theorem tagsFrom_shift (place m : Nat) (s : State) (text : List Char) :
    tagsFrom (place + m) s text = (tagsFrom place s text).map fun found => (found.1 + m, found.2) := by
  induction text generalizing place s with
  | nil => rfl
  | cons c text ih =>
    rw [tagsFrom, tagsFrom, Nat.add_right_comm]
    cases ended s c with
    | none => exact ih (place + 1) (step s c)
    | some tag => exact congrArg ((place + 1 + m, tag) :: ·) (ih (place + 1) (step s c))

/-- The same text at two places. -/
theorem forall₂_tagsFrom {R : Nat × Tag → Nat × Tag → Prop} (p q : Nat) (s : State) (text : List Char)
    (h : ∀ m found, 0 < m → m ≤ text.length → R (p + m, found) (q + m, found)) :
    List.Forall₂ R (tagsFrom p s text) (tagsFrom q s text) := by
  have hshift : ∀ p, tagsFrom p s text = (tagsFrom 0 s text).map fun found => (p + found.1, found.2) := by
    intro p
    rw [← Nat.zero_add p, tagsFrom_shift]
    exact List.map_congr_left fun found _ => by rw [Nat.add_comm, Nat.zero_add]
  rw [hshift p, hshift q, List.forall₂_map_left_iff, List.forall₂_map_right_iff, List.forall₂_same]
  intro found hfound
  obtain ⟨hlow, hhigh⟩ := bounds_tagsFrom hfound
  rw [Nat.zero_add] at hhigh
  exact h found.1 found.2 hlow hhigh

/-- What the expression finds is read up to its end, whether or not an id is written. -/
theorem forall₂_found (hplain : ∀ heading ∈ headings, Plain heading.id) {s : State}
    (hread : readOpen text = some (tag, n))
    (hclean : Writes headings i tag → s = .data ∧ Clean tag) (hes : ∀ e ∈ es, p + (text.take n).length < e)
    (hes' : ∀ e ∈ es', q + (writeTag headings i tag (text.take n)).length < e) :
    after s (writeTag headings i tag (text.take n)) = after s (text.take n) ∧
      List.Forall₂
        (fun x y => p < x.1 ∧ q < y.1 ∧ Becomes headings ((tag, text.take n) :: ms) ((p + (text.take n).length) :: es)
          ((q + (writeTag headings i tag (text.take n)).length) :: es') i x y)
        (tagsFrom p s (text.take n)) (tagsFrom q s (writeTag headings i tag (text.take n))) := by
  by_cases hwrites : Writes headings i tag
  · obtain ⟨rfl, ⟨found, hwhole, hleft⟩, hwaits⟩ := hclean hwrites
    obtain ⟨heading, hheading, hlevel⟩ := hwrites
    obtain ⟨letter, hletter, hdigit, hattributes, hfound⟩ := readOpen_text hread
    obtain ⟨hclosing, hafter, htags⟩ := read_openBody hletter hdigit hattributes hwhole
    obtain ⟨hafter', htags'⟩ :=
      read_written hdigit hattributes hclosing hleft hwaits (hplain heading (List.mem_of_getElem? hheading))
    rw [← hfound] at hafter htags
    rw [← writeTag_written hheading hlevel (text.take n)] at hafter' htags'
    refine ⟨hafter'.trans hafter.symm, ?_⟩
    rw [htags, htags']
    have hpos : 0 < (text.take n).length := by
      rw [hfound]
      exact Nat.succ_pos _
    have hpos' : 0 < (writeTag headings i tag (text.take n)).length := by
      rw [writeTag_written hheading hlevel]
      exact Nat.succ_pos _
    refine .cons ⟨Nat.lt_add_of_pos_right hpos, Nat.lt_add_of_pos_right hpos', ?_⟩ .nil
    refine .of_le (Nat.le_refl _) (Nat.le_refl _) (iff_of_true rfl rfl) hes hes' (fun other hother _ _ => ?_)
      fun hnot => ?_
    · rw [Option.some.inj (hheading.symm.trans hother)]
    · exact absurd ⟨heading, hheading, hlevel⟩ (hnot rfl)
  · rw [writeTag_kept hwrites] at hes' ⊢
    refine ⟨rfl, forall₂_tagsFrom p q s _ fun m found hpos hle => ?_⟩
    refine ⟨Nat.lt_add_of_pos_right hpos, Nat.lt_add_of_pos_right hpos, ?_⟩
    refine .of_le (Nat.add_le_add_left hle p) (Nat.add_le_add_left hle q) ?_ hes hes'
      (fun other hother hlevel _ => ?_) fun _ => rfl
    · exact Nat.add_left_cancel_iff.trans Nat.add_left_cancel_iff.symm
    · exact absurd ⟨other, hother, hlevel⟩ hwrites

/-- What is read alike up to the tags into which ids are written is read alike behind them. -/
theorem forall₂_becomes (hplain : ∀ heading ∈ headings, Plain heading.id) (p q i : Nat) (s : State) (text : List Char)
    (hreads : ∀ (j place : Nat) (tag : OpenTag), (openTags text)[j]? = some (place, tag) → Writes headings (i + j) tag →
      after s (text.take place) = .data ∧ Clean tag) :
    List.Forall₂ (fun x y => p < x.1 ∧ q < y.1 ∧
      Becomes headings (matched (pieces readOpen 0 text)) (ends keep p i (pieces readOpen 0 text))
        (ends (writeTag headings) q i (pieces readOpen 0 text)) i x y)
      (tagsFrom p s text) (tagsFrom q s (rewrite (writeTag headings) i (pieces readOpen 0 text))) := by
  induction text using pieces_induction reads_open generalizing p q i s with
  | nil => exact .nil
  | char c text hnone ih =>
    have hlater : ∀ (j place : Nat) (tag : OpenTag), (openTags text)[j]? = some (place, tag) →
      Writes headings (i + j) tag →
        after (step s c) (text.take place) = .data ∧ Clean tag := by
      intro j place tag htag hwrites
      refine hreads j (place + 1) tag ?_ hwrites
      rw [openTags, pieces_cons_none hnone, located, located_shift, List.getElem?_map]
      rw [openTags] at htag
      rw [htag]
      rfl
    have hread := ih (p + 1) (q + 1) i (step s c) hlater
    have hweaker :=
      hread.imp fun x y h => (⟨Nat.lt_of_succ_lt h.1, Nat.lt_of_succ_lt h.2.1, h.2.2⟩ : p < x.1 ∧ q < y.1 ∧ _)
    rw [pieces_cons_none hnone, rewrite, tagsFrom, tagsFrom]
    cases ended s c with
    | none => exact hweaker
    | some found =>
      refine .cons ⟨Nat.lt_succ_self p, Nat.lt_succ_self q, .of_lt (fun e he => ?_) (fun e he => ?_) rfl⟩ hweaker
      · exact lt_ends keep_ne_nil he
      · exact lt_ends (writeTag_ne_nil headings) he
  | found c text tag n hsome ih =>
    have hbounds := (reads_open hsome).2
    rw [List.length_cons, Nat.add_le_add_iff_right] at hbounds
    have hlength :
      (c :: text.take n).length = n + 1 := by rw [List.length_cons, List.length_take, Nat.min_eq_left hbounds]
    have hsplit : c :: text = (c :: text.take n) ++ text.drop n := by rw [List.cons_append, List.take_append_drop]
    -- what is found later has been read behind this piece
    have hlater : ∀ (j place : Nat) (tag : OpenTag), (openTags (text.drop n))[j]? = some (place, tag) →
      Writes headings (i + 1 + j) tag →
        after (after s (c :: text.take n)) ((text.drop n).take place) = .data ∧ Clean tag := by
      intro j place tag' htag hwrites
      rw [Nat.add_assoc, Nat.add_comm 1 j] at hwrites
      have hplace := hreads (j + 1) (place + (n + 1)) tag' (by
        rw [openTags] at htag
        rw [openTags, pieces_cons_some hsome, located, located_shift, hlength, List.getElem?_cons_succ,
          List.getElem?_map, htag]
        rfl) hwrites
      rw [hsplit, Nat.add_comm place, ← hlength, List.take_length_add_append, after_append] at hplace
      exact hplace
    have htext : (c :: text).take (n + 1) = c :: text.take n := List.take_succ_cons
    have hclean : Writes headings i tag → s = .data ∧ Clean tag :=
      hreads 0 0 tag (by rw [openTags, pieces_cons_some hsome]; rfl)
    have hends : ∀ e ∈ ends keep (p + ((c :: text).take (n + 1)).length) (i + 1) (pieces readOpen 0 (text.drop n)),
        p + ((c :: text).take (n + 1)).length < e := fun e he => lt_ends keep_ne_nil he
    have hwritten :
      ∀ e ∈ ends (writeTag headings) (q + (writeTag headings i tag ((c :: text).take (n + 1))).length) (i + 1)
        (pieces readOpen 0 (text.drop n)), q + (writeTag headings i tag ((c :: text).take (n + 1))).length < e :=
      fun e he => lt_ends (writeTag_ne_nil headings) he
    obtain ⟨hafter, hpiece⟩ := forall₂_found hplain hsome hclean hends hwritten
    rw [htext] at hafter hpiece
    have hrest :=
      ih (p + (c :: text.take n).length) (q + (writeTag headings i tag (c :: text.take n)).length) (i + 1) _ hlater
    rw [pieces_cons_some hsome, rewrite, hsplit, tagsFrom_append, tagsFrom_append, hafter]
    refine List.rel_append hpiece (hrest.imp fun x y h => ⟨?_, ?_, h.2.2.cons (tag, c :: text.take n) h.1 h.2.1⟩)
    · exact Nat.lt_of_le_of_lt (Nat.le_add_right _ _) h.1
    · exact Nat.lt_of_le_of_lt (Nat.le_add_right _ _) h.2.1

/-- HTML reads the tags into which ids are written as the expressions do. -/
def ReadAlike (content : List Char) (headings : List ArticleHeading) : Prop :=
  ∀ (j place : Nat) (tag : OpenTag), (openTags content)[j]? = some (place, tag) → Writes headings j tag →
    after .data (content.take place) = .data ∧ Clean tag

/-! ## Pairs of tags -/

/-- The tags of the content with those of the result. -/
def tagPairs (content : List Char) (headings : List ArticleHeading) : List ((Nat × Tag) × (Nat × Tag)) :=
  (tags content).zip (tags (addHeadingIdsToHtml content headings))

variable {content : List Char} {x' y' : Nat × Tag}

theorem nodup_tags (text : List Char) : ((tags text).map Prod.fst).Nodup :=
  List.Pairwise.map Prod.fst (fun _ _ hlt => Nat.ne_of_lt hlt) (pairwise_tagsFrom 0 .data text)

section Reads

variable (hplain : ∀ heading ∈ headings, Plain heading.id) (hreads : ReadAlike content headings)
include hplain hreads

theorem forall₂_tags :
    List.Forall₂
      (Becomes headings (matched (pieces readOpen 0 content)) (openEnds content) (writtenEnds content headings) 0)
    (tags content) (tags (addHeadingIdsToHtml content headings)) := by
  refine (forall₂_becomes hplain 0 0 0 .data content fun j place tag htag hwrites => ?_).imp fun x y h => h.2.2
  rw [Nat.zero_add] at hwrites
  exact hreads j place tag htag hwrites

theorem becomes_of_mem (h : (x, y) ∈ tagPairs content headings) :
    Becomes headings (matched (pieces readOpen 0 content)) (openEnds content) (writtenEnds content headings) 0 x y :=
  (List.forall₂_iff_zip.mp (forall₂_tags hplain hreads)).2 h

theorem exists_written (h : x ∈ tags content) : ∃ y, (x, y) ∈ tagPairs content headings := by
  have hmap := List.map_fst_zip (List.forall₂_iff_zip.mp (forall₂_tags hplain hreads)).1.le
  rw [← hmap] at h
  obtain ⟨⟨x, y⟩, hmem, rfl⟩ := List.mem_map.mp h
  exact ⟨y, hmem⟩

theorem exists_content (h : y ∈ tags (addHeadingIdsToHtml content headings)) :
    ∃ x, (x, y) ∈ tagPairs content headings := by
  have hmap := List.map_snd_zip (List.forall₂_iff_zip.mp (forall₂_tags hplain hreads)).1.ge
  rw [← hmap] at h
  obtain ⟨⟨x, y⟩, hmem, rfl⟩ := List.mem_map.mp h
  exact ⟨x, hmem⟩

theorem place_iff (h : (x, y) ∈ tagPairs content headings) (h' : (x', y') ∈ tagPairs content headings) :
    x.1 = x'.1 ↔ y.1 = y'.1 := by
  have hlength := (List.forall₂_iff_zip.mp (forall₂_tags hplain hreads)).1
  have hcontent : ((tagPairs content headings).map fun pair => pair.1.1).Nodup := by
    have hmap : (tagPairs content headings).map Prod.fst = tags content := List.map_fst_zip hlength.le
    have hnodup := nodup_tags content
    rwa [← hmap, List.map_map] at hnodup
  have hresult : ((tagPairs content headings).map fun pair => pair.2.1).Nodup := by
    have hmap : (tagPairs content headings).map Prod.snd = tags (addHeadingIdsToHtml content headings) :=
      List.map_snd_zip hlength.ge
    have hnodup := nodup_tags (addHeadingIdsToHtml content headings)
    rwa [← hmap, List.map_map] at hnodup
  constructor
  · intro heq
    have hpair := List.inj_on_of_nodup_map hcontent h h' heq
    rw [(Prod.mk.inj hpair).2]
  · intro heq
    have hpair := List.inj_on_of_nodup_map hresult h h' heq
    rw [(Prod.mk.inj hpair).1]

end Reads

end AdWiki.Web
