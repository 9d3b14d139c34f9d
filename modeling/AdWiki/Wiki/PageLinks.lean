import AdWiki.Common.JsString
import AdWiki.Wiki.PageCalls
import AdWiki.Wiki.PageTree
import Mathlib

/-!
# The links between pages

`[[slug]]` and `[[title|text]]` in the content of a page are links to other pages. `syncLinks` stores them when a page is
created or updated, for the pages that it finds at that moment.

* `linkAt_eq_some`: what the regular expression matches at one place; `wikiLabels` are the matches from left to right.
* `AllLinked`: the links between any two pages, in the trash or not, are those that the contents name.
* `step_allLinked`: the calls after which this still holds (`KeepsLabels`).
-/

namespace AdWiki.Wiki

open Access Fallible

/-! ## Labels -/

/-- `/\[\[([^\]|]+)(?:\|[^\]]+)?\]\]/` at the start of a text: the label and what follows the match. No other length of
the label or of the text behind the bar can match, since the next character has to be one that they exclude. -/
def linkAt : List Char → Option (List Char × List Char)
  | '[' :: '[' :: cs =>
    let label := cs.takeWhile fun c => c != ']' && c != '|'
    if label = [] then none
    else
      match cs.dropWhile fun c => c != ']' && c != '|' with
      | ']' :: ']' :: rest => some (label, rest)
      | '|' :: cs =>
        if cs.takeWhile (· != ']') = [] then none
        else
          match cs.dropWhile (· != ']') with
          | ']' :: ']' :: rest => some (label, rest)
          | _ => none
      | _ => none
  | _ => none

/-- The matches in a text of which the first characters belong to the match before. -/
def labelsFrom : Nat → List Char → List (List Char)
  | _, [] => []
  | skip + 1, _ :: cs => labelsFrom skip cs
  | 0, c :: cs =>
    match linkAt (c :: cs) with
    | none => labelsFrom 0 cs
    | some (label, rest) => label :: labelsFrom (cs.length - rest.length) cs

/-- `content.matchAll(…)`, the first group of each match. -/
def wikiLabels (content : String) : List String := (labelsFrom 0 content.toList).map String.ofList

section Labels

variable (slugify : String → String)

/-- Does the content have a link whose label becomes the slug? -/
def names (content slug : String) : Bool := (wikiLabels content).any fun label => slugify (Js.trim label) == slug

/-- The slugs that `syncLinks` looks for. -/
def linkedSlugs (content : String) : List String :=
  (Js.distinct ((((wikiLabels content).map Js.trim).filter (· ≠ "")).map slugify)).filter (· ≠ "")

end Labels

/-! ## The calls -/

/-- The tables with the links. -/
structure LinkedState where
  wiki : WikiState
  links : Table PageLink.key

inductive LinkedCall
  | create (id : String) (input : CreatePageInput) (authorId : String) (actor : Option AuthenticatedUser)
  | update (id : String) (input : UpdatePageInput) (options : PageUpdateOptions)
  | toggleCheckbox (id : String) (checkboxIndex : Nat) (checked : Bool) (actor : Option AuthenticatedUser)
  | remove (id deletedById : String) (now : Time) (actor : Option AuthenticatedUser)
  | restore (id : String) (actor : Option AuthenticatedUser)

def checkboxNotFound (checkboxIndex : Nat) : HttpError :=
  .badRequest ("Checkbox mit Index " ++ toString checkboxIndex ++ " wurde nicht gefunden.")

/-- `toggleCheckboxInContent` is any function of the content, the index and the value. -/
def WikiState.toggleCheckbox (toggleCheckboxInContent : String → Nat → Bool → Option String) (st : WikiState)
    (order : RowOrder)
    (id : String) (checkboxIndex : Nat) (checked : Bool) (actor : Option AuthenticatedUser) :
    Except HttpError WikiState :=
  match (st.kb.findLive id).filter fun page => page.type == .page with
  | none => .error (Edits.pageNotFound id)
  | some existing => do
    st.assertAllowed order actor ⟨.pages, .update, .page, id⟩
    let content ← ofOption (toggleCheckboxInContent existing.content checkboxIndex checked)
      (checkboxNotFound checkboxIndex)
    pure
      (st.setPages
        (st.kb.pages.updateMany (fun page => page.id == id) (fun page => { page with content := content }) fun _ => rfl))

namespace LinkedState

variable (order : RowOrder) (slugify : String → String) (toggleCheckboxInContent : String → Nat → Bool → Option String)
  (st : LinkedState)

def kb : KnowledgeBase := st.wiki.kb

/-- The links of a page are deleted, and those to the live pages that it names are created. -/
def syncLinks (sourceId content : String) : LinkedState :=
  let targets := st.kb.pages.findMany order fun page =>
    (linkedSlugs slugify content).contains page.slug && page.id != sourceId && page.deletedAt.isNone
  let others := st.links.deleteMany fun link => link.sourceId == sourceId
  { st with links := others.createManySkipDuplicates (targets.map fun target => ⟨sourceId, target.id⟩) }

/-- After a save, the content that has been written is read for links. -/
def saved (id : String) (wiki : WikiState) : LinkedState :=
  let st' : LinkedState := { st with wiki := wiki }
  match wiki.kb.pages.find id with
  | none => st'
  | some page => st'.syncLinks order slugify page.id page.content

def perform : LinkedCall → Except HttpError LinkedState
  | .create id input authorId actor =>
    (st.wiki.create order slugify id input authorId actor).map (st.saved order slugify id)
  | .update id input options => (st.wiki.update order id input options).map (st.saved order slugify id)
  | .toggleCheckbox id checkboxIndex checked actor =>
    (st.wiki.toggleCheckbox toggleCheckboxInContent order id checkboxIndex checked actor).map fun wiki =>
      { st with wiki := wiki }
  | .remove id deletedById now actor => (st.wiki.remove order id deletedById now actor).map fun wiki =>
    { st with wiki := wiki }
  | .restore id actor => (st.wiki.restore order id actor).map fun wiki => { st with wiki := wiki }

end LinkedState

/-- A call that succeeds; one that fails changes nothing. -/
def LinkedState.step (slugify : String → String) (toggleCheckboxInContent : String → Nat → Bool → Option String)
    (st : LinkedState) (call : RowOrder × LinkedCall) : Option LinkedState :=
  (st.perform call.1 slugify toggleCheckboxInContent call.2).toOption

variable {kb : KnowledgeBase} {st st' : LinkedState} {order : RowOrder} {slugify : String → String}
  {toggleCheckboxInContent : String → Nat → Bool → Option String} {id content slug : String}
    {actor : Option AuthenticatedUser}

/-! ## What is matched, and what is stored -/

theorem takeWhile_stop {p : Char → Bool} {l : List Char} {c : Char} (rest : List Char) (hl : ∀ a ∈ l, p a = true)
    (hc : p c = false) :
    (l ++ c :: rest).takeWhile p = l ∧ (l ++ c :: rest).dropWhile p = c :: rest := by
  rw [List.takeWhile_append_of_pos hl, List.dropWhile_append_of_pos hl]
  simp [hc]

/-- The expression matches a label, and perhaps a bar and a text, in double brackets. -/
theorem linkAt_eq_some {cs label rest : List Char} : linkAt cs = some (label, rest) ↔
    label ≠ [] ∧ (∀ c ∈ label, (c != ']' && c != '|') = true) ∧
      (cs = '[' :: '[' :: (label ++ ']' :: ']' :: rest) ∨
        ∃ text, text ≠ [] ∧ (∀ c ∈ text, (c != ']') = true) ∧
          cs = '[' :: '[' :: (label ++ '|' :: (text ++ ']' :: ']' :: rest))) := by
  constructor
  · intro h
    unfold linkAt at h
    split at h
    · next cs =>
      have hsplit := (List.takeWhile_append_dropWhile (p := fun c => c != ']' && c != '|') (l := cs)).symm
      have hall : ∀ c ∈ cs.takeWhile fun c => c != ']' && c != '|', (c != ']' && c != '|') = true :=
        fun _ => List.mem_takeWhile_imp
      dsimp only at h
      split at h
      · cases h
      · next hlabel =>
        split at h
        · next hdrop =>
          cases h
          exact ⟨hlabel, hall, Or.inl (by rw [← hdrop, ← hsplit])⟩
        · next after hdrop =>
          split at h
          · cases h
          · next htext =>
            split at h
            · next hclose =>
              cases h
              refine ⟨hlabel, hall, Or.inr ⟨_, htext, fun _ => List.mem_takeWhile_imp, ?_⟩⟩
              rw [← hclose, List.takeWhile_append_dropWhile, ← hdrop, ← hsplit]
            · cases h
        · cases h
    · cases h
  · rintro ⟨hlabel, hall, rfl | ⟨text, htext, hopen, rfl⟩⟩
    · obtain ⟨htake, hdrop⟩ := takeWhile_stop (c := ']') (']' :: rest) hall rfl
      unfold linkAt
      simp only [htake, hdrop, if_neg hlabel]
    · obtain ⟨htake, hdrop⟩ := takeWhile_stop (c := '|') (text ++ ']' :: ']' :: rest) hall rfl
      obtain ⟨htake', hdrop'⟩ := takeWhile_stop (c := ']') (']' :: rest) hopen rfl
      unfold linkAt
      simp only [htake, hdrop, if_neg hlabel, htake', hdrop', if_neg htext]

/-- Every label is in brackets somewhere in the text. -/
theorem linkAt_of_mem_labelsFrom {cs label : List Char} {skip : Nat} (h : label ∈ labelsFrom skip cs) :
    ∃ pre post rest, cs = pre ++ post ∧ linkAt post = some (label, rest) := by
  induction cs generalizing skip with
  | nil => cases skip <;> cases h
  | cons c cs ih =>
    have hlater :
        ∀ {n}, label ∈ labelsFrom n cs → ∃ pre post rest, c :: cs = pre ++ post ∧ linkAt post = some (label, rest) := by
      intro n hmem
      obtain ⟨pre, post, rest, hsplit, hlink⟩ := ih hmem
      exact ⟨c :: pre, post, rest, by rw [hsplit, List.cons_append], hlink⟩
    cases skip with
    | succ n => exact hlater h
    | zero =>
      unfold labelsFrom at h
      split at h
      · exact hlater h
      · next found rest hlink =>
        rcases List.mem_cons.mp h with rfl | hmem
        · exact ⟨[], c :: cs, rest, rfl, hlink⟩
        · exact hlater hmem

theorem mem_linkedSlugs (hempty : slugify "" = "") :
    slug ∈ linkedSlugs slugify content ↔ slug ≠ "" ∧ names slugify content slug = true := by
  unfold linkedSlugs names
  rw [List.mem_filter, Js.mem_distinct, List.mem_map, List.any_eq_true, decide_eq_true_eq, and_comm]
  refine and_congr_right fun hslug => ⟨?_, ?_⟩
  · rintro ⟨label, hlabel, rfl⟩
    obtain ⟨raw, hraw, rfl⟩ := List.mem_map.mp (List.mem_filter.mp hlabel).1
    exact ⟨raw, hraw, beq_self_eq_true _⟩
  · rintro ⟨raw, hraw, hslugify⟩
    refine ⟨Js.trim raw, List.mem_filter.mpr ⟨List.mem_map_of_mem hraw, ?_⟩, beq_iff_eq.mp hslugify⟩
    rw [decide_eq_true_eq]
    intro hblank
    rw [hblank, hempty, beq_iff_eq] at hslugify
    exact hslug hslugify.symm

theorem pageLink_key_injective : Function.Injective PageLink.key := by
  rintro ⟨s, t⟩ ⟨s', t'⟩ h
  cases h
  rfl

theorem mem_syncLinks (hempty : slugify "" = "") {sourceId : String} {link : PageLink} :
    link ∈ (st.syncLinks order slugify sourceId content).links ↔
      (link ∈ st.links ∧ link.sourceId ≠ sourceId) ∨
        (link.sourceId = sourceId ∧ link.targetId ≠ sourceId ∧ ∃ page, st.kb.findLive link.targetId = some page ∧
          page.slug ≠ "" ∧ names slugify content page.slug = true) := by
  unfold LinkedState.syncLinks
  rw [Table.mem_createManySkipDuplicates pageLink_key_injective, Table.mem_deleteMany, beq_eq_false_iff_ne]
  refine or_congr_right ⟨?_, ?_⟩
  · intro hnew
    obtain ⟨page, hpage, rfl⟩ := List.mem_map.mp hnew
    obtain ⟨hrow, hmatch⟩ := Table.mem_findMany.mp hpage
    simp only [Bool.and_eq_true, List.contains_iff_mem, bne_iff_ne, Option.isNone_iff_eq_none] at hmatch
    obtain ⟨⟨hslug, hother⟩, hlive⟩ := hmatch
    exact ⟨rfl, hother, page, findLive_eq_some.mpr ⟨Table.find_of_mem hrow, hlive⟩, (mem_linkedSlugs hempty).mp hslug⟩
  · rintro ⟨rfl, hother, page, hpage, hnamed⟩
    obtain ⟨hfind, hlive⟩ := findLive_eq_some.mp hpage
    obtain ⟨hrow, hid⟩ := Table.find_eq_some.mp hfind
    refine List.mem_map.mpr ⟨page, Table.mem_findMany.mpr ⟨hrow, ?_⟩, by rw [hid]⟩
    simp only [Bool.and_eq_true, List.contains_iff_mem, bne_iff_ne, Option.isNone_iff_eq_none]
    exact ⟨⟨(mem_linkedSlugs hempty).mpr hnamed, hid ▸ hother⟩, hlive⟩

/-! ## The property and the invariant -/

/-- Two different live pages are linked exactly if the content of the one names the other. -/
def LinksExact (slugify : String → String) (st : LinkedState) : Prop :=
  ∀ x y source target, st.kb.findLive x = some source → st.kb.findLive y = some target → x ≠ y →
    (⟨x, y⟩ ∈ st.links ↔ names slugify source.content target.slug = true)

/-- The same for all pages, in the trash or not; and links are between pages. -/
structure AllLinked (slugify : String → String) (st : LinkedState) : Prop where
  ends : ∀ link ∈ st.links, (st.kb.pages.find link.sourceId).isSome ∧ (st.kb.pages.find link.targetId).isSome
  linked : ∀ x y source target, st.kb.pages.find x = some source → st.kb.pages.find y = some target → x ≠ y →
    (⟨x, y⟩ ∈ st.links ↔ names slugify source.content target.slug = true)

theorem AllLinked.linksExact (h : AllLinked slugify st) : LinksExact slugify st := by
  intro x y source target hsource htarget hne
  exact h.linked x y source target (findLive_eq_some.mp hsource).1 (findLive_eq_some.mp htarget).1 hne

/-- Every page that the content of page `id` names is live, and has a slug. -/
def resolves (slugify : String → String) (kb : KnowledgeBase) (id content : String) : Bool :=
  kb.pages.rows.all fun page =>
    page.id == id || !names slugify content page.slug || (page.deletedAt.isNone && page.slug != "")

/-- A page is saved when all that it names is there, a new page has no name that a page has used for a link before, and a
check mark changes no label that leads to a page. -/
def KeepsLabels (slugify : String → String) (toggleCheckboxInContent : String → Nat → Bool → Option String)
    (st : LinkedState) :
    LinkedCall → Bool
  | .create id input authorId _ =>
    resolves slugify st.kb id input.content &&
      st.kb.pages.rows.all fun page => !names slugify page.content (st.wiki.newPage slugify id input "" authorId).slug
  | .update id input _ => (st.kb.findLive id).all fun page => resolves slugify st.kb id (input.content.getD page.content)
  | .toggleCheckbox id checkboxIndex checked _ =>
    (st.kb.findLive id).all fun page => (toggleCheckboxInContent page.content checkboxIndex checked).all fun content =>
      st.kb.pages.rows.all fun other =>
        other.id == id || names slugify page.content other.slug == names slugify content other.slug
  | _ => true

/-! ## Saves -/

theorem resolves_iff : resolves slugify kb id content = true ↔
    ∀ y target, y ≠ id → kb.pages.find y = some target → names slugify content target.slug = true →
      target.deletedAt = none ∧ target.slug ≠ "" := by
  unfold resolves
  rw [List.all_eq_true]
  constructor
  · intro h y target hne hfind hnamed
    obtain ⟨hrow, rfl⟩ := Table.find_eq_some.mp hfind
    simpa [hne, hnamed] using h target hrow
  · intro h page hrow
    have hpage := h page.id page
    rw [Table.find_of_mem hrow] at hpage
    by_cases hid : page.id = id
    · simp [hid]
    · cases hnamed : names slugify content page.slug with
      | false => simp
      | true => simpa [hid] using hpage hid rfl hnamed

theorem mem_saved (hempty : slugify "" = "") {wiki : WikiState} {page : Page} {link : PageLink}
    (hpage : wiki.kb.pages.find id = some page) : link ∈ (st.saved order slugify id wiki).links ↔
      (link ∈ st.links ∧ link.sourceId ≠ id) ∨
        (link.sourceId = id ∧ link.targetId ≠ id ∧ ∃ target, wiki.kb.findLive link.targetId = some target ∧
          target.slug ≠ "" ∧ names slugify page.content target.slug = true) := by
  obtain ⟨-, hid⟩ := Table.find_eq_some.mp hpage
  unfold LinkedState.saved
  rw [hpage]
  dsimp only
  rw [mem_syncLinks hempty, hid]
  rfl

theorem saved_kb {wiki : WikiState} : (st.saved order slugify id wiki).kb = wiki.kb := by
  unfold LinkedState.saved
  split <;> rfl

/-- The invariant after a save of `page`: what it names is there, and the links to it are those that the others name. -/
theorem allLinked_saved (hempty : slugify "" = "") (h : AllLinked slugify st) {wiki : WikiState} {page : Page}
    (hpage : wiki.kb.pages.find id = some page) (hother : ∀ x, x ≠ id → wiki.kb.pages.find x = st.kb.pages.find x) :
    AllLinked slugify (st.saved order slugify id wiki) ↔ resolves slugify st.kb id page.content = true ∧
      ∀ x source, x ≠ id → st.kb.pages.find x = some source →
        (⟨x, id⟩ ∈ st.links ↔ names slugify source.content page.slug = true) := by
  have hfrom : ∀ y target, y ≠ id → st.kb.pages.find y = some target →
      (⟨id, y⟩ ∈ (st.saved order slugify id wiki).links ↔
        target.deletedAt = none ∧ target.slug ≠ "" ∧ names slugify page.content target.slug = true) := by
    intro y target hne hfind
    rw [mem_saved hempty hpage]
    constructor
    · rintro (⟨-, hsource⟩ | ⟨-, -, found, hfound, hslug, hnamed⟩)
      · exact absurd rfl hsource
      · obtain ⟨hrow, hlive⟩ := findLive_eq_some.mp hfound
        rw [hother y hne, hfind] at hrow
        cases hrow
        exact ⟨hlive, hslug, hnamed⟩
    · rintro ⟨hlive, hslug, hnamed⟩
      exact Or.inr ⟨rfl, hne, target, findLive_eq_some.mpr ⟨(hother y hne).trans hfind, hlive⟩, hslug, hnamed⟩
  have hto : ∀ x y, x ≠ id → (⟨x, y⟩ ∈ (st.saved order slugify id wiki).links ↔ ⟨x, y⟩ ∈ st.links) := by
    intro x y hne
    rw [mem_saved hempty hpage]
    exact ⟨fun hlink => hlink.elim And.left fun hnew => absurd hnew.1 hne, fun hlink => Or.inl ⟨hlink, hne⟩⟩
  constructor
  · intro h'
    refine ⟨resolves_iff.mpr fun y target hne hfind hnamed => ?_, fun x source hne hfind => ?_⟩
    · have hlink :=
        (h'.linked id y page target (by rw [saved_kb]; exact hpage) (by rw [saved_kb, hother y hne]; exact hfind)
        hne.symm).mpr hnamed
      obtain ⟨hlive, hslug, -⟩ := (hfrom y target hne hfind).mp hlink
      exact ⟨hlive, hslug⟩
    · rw [← hto x id hne]
      exact h'.linked x id source page (by rw [saved_kb, hother x hne]; exact hfind) (by rw [saved_kb]; exact hpage) hne
  · rintro ⟨hresolves, hnamed⟩
    have hfound : ∀ x, (st.kb.pages.find x).isSome → (wiki.kb.pages.find x).isSome := by
      intro x hx
      by_cases hid : x = id
      · rw [hid, hpage]
        rfl
      · rw [hother x hid]
        exact hx
    refine ⟨fun link hlink => ?_, fun x y source target hsource htarget hne => ?_⟩
    · rw [saved_kb]
      rcases (mem_saved hempty hpage).mp hlink with ⟨hold, -⟩ | ⟨hsource, -, target, htarget, -⟩
      · exact ⟨hfound _ (h.ends link hold).1, hfound _ (h.ends link hold).2⟩
      · exact ⟨by rw [hsource, hpage]; rfl, by rw [(findLive_eq_some.mp htarget).1]; rfl⟩
    · rw [saved_kb] at hsource htarget
      by_cases hx : x = id
      · subst hx
        obtain rfl : page = source := Option.some.inj (hpage.symm.trans hsource)
        rw [hother y hne.symm] at htarget
        rw [hfrom y target hne.symm htarget]
        refine ⟨fun hall => hall.2.2, fun hname => ?_⟩
        obtain ⟨hlive, hslug⟩ := resolves_iff.mp hresolves y target hne.symm htarget hname
        exact ⟨hlive, hslug, hname⟩
      · rw [hto x y hx]
        rw [hother x hx] at hsource
        by_cases hy : y = id
        · subst hy
          obtain rfl : page = target := Option.some.inj (hpage.symm.trans htarget)
          exact hnamed x source hx hsource
        · rw [hother y hy] at htarget
          exact h.linked x y source target hsource htarget hne

theorem allLinked_create (hempty : slugify "" = "") (h : AllLinked slugify st) {input : CreatePageInput}
    {authorId : String} {wiki : WikiState} (hok : st.wiki.create order slugify id input authorId actor = .ok wiki) :
    KeepsLabels slugify toggleCheckboxInContent st (.create id input authorId actor) = true ↔
      AllLinked slugify (st.saved order slugify id wiki) := by
  obtain ⟨spaceId, hcreated⟩ := create_created hok
  have hpage : wiki.kb.pages.find id = some (st.wiki.newPage slugify id input spaceId authorId) := by
    rw [hcreated.find id]
    exact if_pos rfl
  have hfresh : st.kb.pages.find id = none := hcreated.fresh
  have hother : ∀ x, x ≠ id → wiki.kb.pages.find x = st.kb.pages.find x := fun x hx => (hcreated.find x).trans (if_neg hx)
  rw [allLinked_saved hempty h hpage hother, KeepsLabels, Bool.and_eq_true, List.all_eq_true]
  refine and_congr_right fun _ => ?_
  have hnone : ∀ x, ⟨x, id⟩ ∉ st.links := fun x hlink => by
    have htarget := (h.ends ⟨x, id⟩ hlink).2
    rw [hfresh] at htarget
    cases htarget
  constructor
  · intro hnew x source hne hfind
    have hnot := hnew source (Table.find_eq_some.mp hfind).1
    rw [Bool.not_eq_true'] at hnot
    exact iff_of_false (hnone x) (by rw [Bool.not_eq_true]; exact hnot)
  · intro hall source hrow
    have hne : source.id ≠ id := by
      intro heq
      rw [← heq, Table.find_of_mem hrow] at hfresh
      cases hfresh
    rw [Bool.not_eq_true', ← Bool.not_eq_true]
    exact fun hnamed => hnone source.id ((hall source.id source hne (Table.find_of_mem hrow)).mpr hnamed)

theorem allLinked_update (hempty : slugify "" = "") (h : AllLinked slugify st) {input : UpdatePageInput}
    {options : PageUpdateOptions} {wiki : WikiState} (hok : st.wiki.update order id input options = .ok wiki) :
    KeepsLabels slugify toggleCheckboxInContent st (.update id input options) = true ↔
      AllLinked slugify (st.saved order slugify id wiki) := by
  obtain ⟨page, spaceId, rfl, hupdated⟩ := update_updated hok
  have hpage : wiki.kb.pages.find page.id = some (page.write input spaceId page) :=
    (hupdated.find page.id).trans (if_pos rfl)
  have hold : st.kb.pages.find page.id = some page := hupdated.found
  have hlive : st.kb.findLive page.id = some page := findLive_eq_some.mpr ⟨hold, hupdated.live⟩
  have hother : ∀ x, x ≠ page.id → wiki.kb.pages.find x = st.kb.pages.find x :=
    fun x hx => (hupdated.find x).trans (if_neg hx)
  rw [allLinked_saved hempty h hpage hother, KeepsLabels, hlive, Option.all_some]
  have hslug : (page.write input spaceId page).slug = page.slug := rfl
  have hcontent : (page.write input spaceId page).content = input.content.getD page.content := rfl
  rw [hslug, hcontent]
  exact (and_iff_left fun x source hne hfind => h.linked x page.id source page hfind hold hne).symm

/-! ## The other calls -/

theorem toggleCheckbox_toggled {st st' : WikiState} {checkboxIndex : Nat} {checked : Bool}
    (hok : st.toggleCheckbox toggleCheckboxInContent order id checkboxIndex checked actor = .ok st') :
    ∃ page content, page.id = id ∧ st.kb.findLive id = some page ∧
      toggleCheckboxInContent page.content checkboxIndex checked = some content ∧
      ∀ x, st'.kb.pages.find x = if x = id then some { page with content := content } else st.kb.pages.find x := by
  unfold WikiState.toggleCheckbox at hok
  split at hok
  · cases hok
  · next page hfound =>
    obtain ⟨hlive, -⟩ := Option.filter_eq_some_iff.mp hfound
    obtain ⟨hfind, -⟩ := findLive_eq_some.mp hlive
    obtain ⟨-, rfl⟩ := Table.find_eq_some.mp hfind
    obtain ⟨_, -, hok⟩ := bind_eq_ok.mp hok
    obtain ⟨content, hcontent, hok⟩ := bind_eq_ok.mp hok
    cases pure_eq_ok.mp hok
    exact ⟨page, content, rfl, hlive, ofOption_eq_ok.mp hcontent,
      find_written (fun row => { row with content := content }) (fun _ => rfl) hfind⟩

/-- A new content, and the links as they were. -/
theorem allLinked_toggle (h : AllLinked slugify st) {checkboxIndex : Nat} {checked : Bool} {wiki : WikiState}
    (hok : st.wiki.toggleCheckbox toggleCheckboxInContent order id checkboxIndex checked actor = .ok wiki) :
    KeepsLabels slugify toggleCheckboxInContent st (.toggleCheckbox id checkboxIndex checked actor) = true ↔
      AllLinked slugify { st with wiki := wiki } := by
  obtain ⟨page, content, rfl, hlive, htoggled, hfind⟩ := toggleCheckbox_toggled hok
  have hlive : st.kb.findLive page.id = some page := hlive
  have hold := (findLive_eq_some.mp hlive).1
  have hother : ∀ x, x ≠ page.id → wiki.kb.pages.find x = st.kb.pages.find x := fun x hx => (hfind x).trans (if_neg hx)
  have hpage : wiki.kb.pages.find page.id = some { page with content := content } := (hfind page.id).trans (if_pos rfl)
  rw [KeepsLabels, hlive, Option.all_some, htoggled, Option.all_some, List.all_eq_true]
  constructor
  · intro hsame
    have hnames : ∀ y target, y ≠ page.id → st.kb.pages.find y = some target →
        names slugify page.content target.slug = names slugify content target.slug := by
      intro y target hne hfind
      obtain ⟨hrow, rfl⟩ := Table.find_eq_some.mp hfind
      have htarget := hsame target hrow
      rw [Bool.or_eq_true, beq_iff_eq, beq_iff_eq] at htarget
      exact htarget.resolve_left hne
    refine ⟨fun link hlink => ?_, fun x y source target hsource htarget hne => ?_⟩
    · have hisSome : ∀ x, (st.kb.pages.find x).isSome → (wiki.kb.pages.find x).isSome := by
        intro x hx
        by_cases hid : x = page.id
        · rw [hid, hpage]
          rfl
        · rw [hother x hid]
          exact hx
      exact ⟨hisSome _ (h.ends link hlink).1, hisSome _ (h.ends link hlink).2⟩
    · show ⟨x, y⟩ ∈ st.links ↔ _
      have hsource : wiki.kb.pages.find x = some source := hsource
      have htarget : wiki.kb.pages.find y = some target := htarget
      -- the slugs are as they were
      obtain ⟨target', htarget', hslug⟩ : ∃ target', st.kb.pages.find y = some target' ∧ target.slug = target'.slug := by
        by_cases hy : y = page.id
        · rw [hy, hpage] at htarget
          cases htarget
          exact ⟨page, hy ▸ hold, rfl⟩
        · exact ⟨target, (hother y hy) ▸ htarget, rfl⟩
      rw [hslug]
      by_cases hx : x = page.id
      · subst hx
        rw [hpage] at hsource
        cases hsource
        rw [h.linked page.id y page target' hold htarget' hne, hnames y target' hne.symm htarget']
      · rw [hother x hx] at hsource
        exact h.linked x y source target' hsource htarget' hne
  · intro h' target hrow
    rw [Bool.or_eq_true, beq_iff_eq, beq_iff_eq]
    by_cases hid : target.id = page.id
    · exact Or.inl hid
    · have hfound := Table.find_of_mem hrow
      have hbefore := h.linked page.id target.id page target hold hfound (Ne.symm hid)
      have hafter := h'.linked page.id target.id _ target hpage ((hother target.id hid).trans hfound) (Ne.symm hid)
      exact Or.inr (Bool.eq_iff_iff.mpr (hbefore.symm.trans hafter))

/-- The rows keep their contents and slugs. -/
theorem AllLinked.kept (h : AllLinked slugify st) {wiki : WikiState}
    (hkept : ∀ x, (wiki.kb.pages.find x).map (fun page => (page.content, page.slug)) =
      (st.kb.pages.find x).map fun page => (page.content, page.slug)) : AllLinked slugify { st with wiki := wiki } := by
  have hisSome : ∀ x, (st.kb.pages.find x).isSome → (wiki.kb.pages.find x).isSome := by
    intro x hx
    have hmap := congrArg Option.isSome (hkept x)
    rw [Option.isSome_map, Option.isSome_map] at hmap
    rw [hmap]
    exact hx
  have hrow : ∀ x page, wiki.kb.pages.find x = some page →
      ∃ old, st.kb.pages.find x = some old ∧ old.content = page.content ∧ old.slug = page.slug := by
    intro x page hfind
    have hmap := hkept x
    rw [hfind, Option.map_some] at hmap
    obtain ⟨old, hold, heq⟩ := Option.map_eq_some_iff.mp hmap.symm
    cases old
    cases page
    cases heq
    exact ⟨_, hold, rfl, rfl⟩
  refine ⟨fun link hlink => ⟨hisSome _ (h.ends link hlink).1, hisSome _ (h.ends link hlink).2⟩,
    fun x y source target hsource htarget hne => ?_⟩
  obtain ⟨source', hsource', hcontent, -⟩ := hrow x source hsource
  obtain ⟨target', htarget', -, hslug⟩ := hrow y target htarget
  rw [← hcontent, ← hslug]
  exact h.linked x y source' target' hsource' htarget' hne

/-- Each call keeps the invariant exactly if it keeps the labels. -/
theorem step_allLinked (hempty : slugify "" = "") {call : RowOrder × LinkedCall} (h : AllLinked slugify st)
    (hstep : st.step slugify toggleCheckboxInContent call = some st') :
    KeepsLabels slugify toggleCheckboxInContent st call.2 = true ↔ AllLinked slugify st' := by
  obtain ⟨order, call⟩ := call
  have hok : st.perform order slugify toggleCheckboxInContent call = .ok st' := toOption_eq_some.mp hstep
  cases call with
  | create id input authorId actor =>
    obtain ⟨wiki, hwiki, rfl⟩ := map_eq_ok hok
    exact allLinked_create hempty h hwiki
  | update id input options =>
    obtain ⟨wiki, hwiki, rfl⟩ := map_eq_ok hok
    exact allLinked_update hempty h hwiki
  | toggleCheckbox id checkboxIndex checked actor =>
    obtain ⟨wiki, hwiki, rfl⟩ := map_eq_ok hok
    exact allLinked_toggle h hwiki
  | remove id deletedById now actor =>
    obtain ⟨wiki, hwiki, rfl⟩ := map_eq_ok hok
    obtain ⟨page, rfl, hremoved⟩ := remove_removed hwiki
    refine iff_of_true rfl (h.kept fun x => ?_)
    have hfind : wiki.kb.pages.find x = (st.kb.pages.find x).map (trashed page now deletedById) := hremoved.find x
    rw [hfind, Option.map_map]
    refine Option.map_congr fun row _ => ?_
    simp only [Function.comp, trashed]
    split <;> split <;> rfl
  | restore id actor =>
    obtain ⟨wiki, hwiki, rfl⟩ := map_eq_ok hok
    obtain ⟨page, rfl, hrestored⟩ := restore_restored hwiki
    refine iff_of_true rfl (h.kept fun x => ?_)
    rw [hrestored.find]
    split
    · next hx =>
      have hfound : st.kb.pages.find page.id = some page := hrestored.found
      rw [hx, hfound]
      rfl
    · rfl

/-! ## Runs -/

/-- Reached from a wiki without pages by calls that all keep the labels. -/
def ReachedKeeping (slugify : String → String) (toggleCheckboxInContent : String → Nat → Bool → Option String)
    (st : LinkedState) : Prop :=
  ∃ start calls, start.kb.pages.rows = [] ∧ start.links.rows = [] ∧
    Runs.Along (LinkedState.step slugify toggleCheckboxInContent)
      (fun t call => KeepsLabels slugify toggleCheckboxInContent t call.2 = true) start calls ∧
    Runs.run (LinkedState.step slugify toggleCheckboxInContent) start calls = some st

/-- The same pages are live, with the same contents and slugs. -/
def SameLive (kb kb' : KnowledgeBase) : Prop :=
  ∀ x, (kb.findLive x).map (fun page => (page.content, page.slug)) = (kb'.findLive x).map fun page =>
    (page.content, page.slug)

theorem allLinked_start (hpages : st.kb.pages.rows = []) (hlinks : st.links.rows = []) : AllLinked slugify st := by
  refine ⟨fun link hlink => ?_, fun x y source target hsource => ?_⟩
  · have hmem : link ∈ st.links.rows := hlink
    rw [hlinks] at hmem
    cases hmem
  · have hmem : source ∈ st.kb.pages.rows := (Table.find_eq_some.mp hsource).1
    rw [hpages] at hmem
    cases hmem

/-- All links, those of pages in the trash too, are exact throughout a run exactly if every call keeps the labels. -/
theorem allLinked_throughout_iff (hempty : slugify "" = "") {calls : List (RowOrder × LinkedCall)}
    (h : AllLinked slugify st) (hrun : Runs.run (LinkedState.step slugify toggleCheckboxInContent) st calls = some st') :
    Runs.Throughout (LinkedState.step slugify toggleCheckboxInContent) (AllLinked slugify) st calls ↔
      Runs.Along (LinkedState.step slugify toggleCheckboxInContent)
        (fun t call => KeepsLabels slugify toggleCheckboxInContent t call.2 = true) st calls :=
  Runs.throughout_iff_along (fun _ _ _ h hstep => step_allLinked hempty h hstep) h hrun

theorem ReachedKeeping.allLinked (hempty : slugify "" = "") (h : ReachedKeeping slugify toggleCheckboxInContent st) :
    AllLinked slugify st := by
  obtain ⟨start, calls, hpages, hlinks, hkeeps, hrun⟩ := h
  have hall := (allLinked_throughout_iff hempty (allLinked_start hpages hlinks) hrun).mpr hkeeps
  exact hall calls [] st (List.append_nil calls).symm hrun

/-- **The links between live pages are those that the contents name, and so the same after all histories with the same
live pages, if every page is saved when what it names is there.** -/
theorem link_graph_exact (slugify : String → String) (toggleCheckboxInContent : String → Nat → Bool → Option String)
    (hempty : slugify "" = "") (st : LinkedState) (h : ReachedKeeping slugify toggleCheckboxInContent st) :
    LinksExact slugify st ∧ ∀ other, ReachedKeeping slugify toggleCheckboxInContent other → SameLive st.kb other.kb →
      ∀ x y, (st.kb.findLive x).isSome → (st.kb.findLive y).isSome → x ≠ y →
        (⟨x, y⟩ ∈ st.links ↔ ⟨x, y⟩ ∈ other.links) := by
  have hexact := (h.allLinked hempty).linksExact
  refine ⟨hexact, fun other hother hsame x y hx hy hne => ?_⟩
  have hexact' := (hother.allLinked hempty).linksExact
  obtain ⟨source, hsource⟩ := Option.isSome_iff_exists.mp hx
  obtain ⟨target, htarget⟩ := Option.isSome_iff_exists.mp hy
  have hlive : ∀ z page, st.kb.findLive z = some page →
      ∃ page', other.kb.findLive z = some page' ∧ page'.content = page.content ∧ page'.slug = page.slug := by
    intro z page hpage
    have hz := hsame z
    rw [hpage, Option.map_some] at hz
    obtain ⟨page', hpage', heq⟩ := Option.map_eq_some_iff.mp hz.symm
    exact ⟨page', hpage', congrArg Prod.fst heq, congrArg Prod.snd heq⟩
  obtain ⟨source', hsource', hcontent, -⟩ := hlive x source hsource
  obtain ⟨target', htarget', -, hslug⟩ := hlive y target htarget
  rw [hexact x y source target hsource htarget hne, hexact' x y source' target' hsource' htarget' hne, hcontent, hslug]

/-! ## Two pages -/

namespace LabelsDemo

def start : LinkedState := ⟨TreeDemo.start, .empty⟩

def slugOf (title : String) : String := title

def toggle (_ : String) (_ : Nat) (_ : Bool) : Option String := none

def newPage (id content : String) : RowOrder × LinkedCall :=
  (.stored,
    .create id ⟨id, none, .page, content, none, .published, false, false, none, none⟩ "admin" (some TreeDemo.admin))

def edit (id content : String) : RowOrder × LinkedCall :=
  (.stored, .update id { UpdatePageInput.empty with content := some content } ⟨some TreeDemo.admin, none, none⟩)

def trash (id : String) : RowOrder × LinkedCall := (.stored, .remove id "admin" 0 (some TreeDemo.admin))

def untrash (id : String) : RowOrder × LinkedCall := (.stored, .restore id (some TreeDemo.admin))

/-- The page with the link is last. -/
def linkLast : List (RowOrder × LinkedCall) :=
  [newPage "setup" "", newPage "guide" "See [[setup|the setup]].", trash "setup", untrash "setup"]

/-- The link is written later. -/
def linkLater : List (RowOrder × LinkedCall) :=
  [newPage "setup" "", newPage "guide" "", edit "guide" "See [[setup|the setup]]."]

/-- The page with the link is first. -/
def linkFirst : List (RowOrder × LinkedCall) := [newPage "guide" "See [[setup|the setup]].", newPage "setup" ""]

/-- What `SameLive` compares. -/
def view (page : Page) : String × String × String × Option Time := (page.id, page.content, page.slug, page.deletedAt)

end LabelsDemo

theorem sameLive_of_view {kb kb' : KnowledgeBase}
    (h : kb.pages.rows.map LabelsDemo.view = kb'.pages.rows.map LabelsDemo.view) : SameLive kb kb' := by
  have hview : ∀ (kb : KnowledgeBase) x, (kb.findLive x).map (fun page => (page.content, page.slug)) =
      (((kb.pages.rows.map LabelsDemo.view).find? fun row => decide (row.1 = x)).filter fun row => row.2.2.2.isNone).map
        fun row => (row.2.1, row.2.2.1) := by
    intro kb x
    rw [List.find?_map, KnowledgeBase.findLive, Table.find]
    show _ =
      Option.map _ (Option.filter _ (Option.map LabelsDemo.view (kb.pages.rows.find? fun row => decide (row.id = x))))
    cases kb.pages.rows.find? fun row => decide (row.id = x) with
    | none => rfl
    | some page =>
      rw [Option.map_some, Option.filter_some, Option.filter_some]
      cases hdeleted : page.deletedAt <;> simp [LabelsDemo.view, hdeleted]
  intro x
  rw [hview, hview, h]

/-- Two histories of the same two pages. -/
theorem link_graph_exact_setup : ∃ st other,
    Runs.run (LinkedState.step LabelsDemo.slugOf LabelsDemo.toggle) LabelsDemo.start LabelsDemo.linkLast = some st ∧
    Runs.run (LinkedState.step LabelsDemo.slugOf LabelsDemo.toggle) LabelsDemo.start LabelsDemo.linkLater = some other ∧
    LinksExact LabelsDemo.slugOf st ∧ (⟨"guide", "setup"⟩ ∈ st.links ↔ ⟨"guide", "setup"⟩ ∈ other.links) := by
  have hruns :
      (Runs.run (LinkedState.step LabelsDemo.slugOf LabelsDemo.toggle) LabelsDemo.start LabelsDemo.linkLast).any fun st =>
      (Runs.run (LinkedState.step LabelsDemo.slugOf LabelsDemo.toggle) LabelsDemo.start
        LabelsDemo.linkLater).any fun other =>
        (st.kb.findLive "guide").isSome && (st.kb.findLive "setup").isSome &&
          decide (st.kb.pages.rows.map LabelsDemo.view = other.kb.pages.rows.map LabelsDemo.view) := by decide +kernel
  obtain ⟨st, hrun, hany⟩ := (Option.any_eq_true _ _).mp hruns
  obtain ⟨other, hrun', hresult⟩ := (Option.any_eq_true _ _).mp hany
  simp only [Bool.and_eq_true, decide_eq_true_eq] at hresult
  obtain ⟨⟨hguide, hsetup⟩, hsame⟩ := hresult
  obtain ⟨hexact, hagree⟩ := link_graph_exact LabelsDemo.slugOf LabelsDemo.toggle rfl st
    ⟨LabelsDemo.start, LabelsDemo.linkLast, rfl, rfl, by decide +kernel, hrun⟩
  exact ⟨st, other, hrun, hrun', hexact, hagree other
    ⟨LabelsDemo.start, LabelsDemo.linkLater, rfl, rfl, by decide +kernel, hrun'⟩ (sameLive_of_view hsame) "guide"
      "setup" hguide hsetup
    (by decide)⟩

/-- The page that is linked to is created after the one with the link. -/
theorem later_page_unlinked : ∃ st guide setup,
    Runs.run (LinkedState.step LabelsDemo.slugOf LabelsDemo.toggle) LabelsDemo.start LabelsDemo.linkFirst = some st ∧
    st.kb.findLive "guide" = some guide ∧ st.kb.findLive "setup" = some setup ∧
    names LabelsDemo.slugOf guide.content setup.slug = true ∧ ⟨"guide", "setup"⟩ ∉ st.links ∧
      ¬LinksExact LabelsDemo.slugOf st := by
  have hrun :
      (Runs.run (LinkedState.step LabelsDemo.slugOf LabelsDemo.toggle) LabelsDemo.start
        LabelsDemo.linkFirst).any fun st =>
      (st.kb.findLive "guide").any fun guide => (st.kb.findLive "setup").any fun setup =>
        names LabelsDemo.slugOf guide.content setup.slug &&
          decide (⟨"guide", "setup"⟩ ∉ st.links.rows) := by decide +kernel
  obtain ⟨st, hrun, hany⟩ := (Option.any_eq_true _ _).mp hrun
  obtain ⟨guide, hguide, hany⟩ := (Option.any_eq_true _ _).mp hany
  obtain ⟨setup, hsetup, hresult⟩ := (Option.any_eq_true _ _).mp hany
  simp only [Bool.and_eq_true, decide_eq_true_eq] at hresult
  obtain ⟨hnames, hmissing⟩ := hresult
  exact ⟨st, guide, setup, hrun, hguide, hsetup, hnames, hmissing, fun hexact =>
    hmissing ((hexact "guide" "setup" guide setup hguide hsetup (by decide)).mpr hnames)⟩

end AdWiki.Wiki
