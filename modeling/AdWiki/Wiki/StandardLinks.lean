import AdWiki.Wiki.PageCalls
import AdWiki.Wiki.SpaceKinds

/-!
# Standards and their pages

Standards are linked to pages of their space. `StandardsService` checks this where it writes a link and again with every
update of a standard; `PagesService` moves pages to another space and puts them into the trash without a look at the
standards.

* `LinkInv`: every link leads to a live page in the space of the standard; `LinkInv.staysTogether` is what follows for
  updates.
* `step_linkInv`: the calls that keep it, all but the move of a linked page to another space and its removal
  (`KeepsLinks`).
* `livePageCount_iff`: what the comparison of two counts in the checks says.
-/

namespace AdWiki.Wiki

open Access Fallible

/-- The columns of a standard that decide about its updates. -/
structure StandardMeta where
  status : Standards.StandardStatus
  responsibleId : String
  deriving DecidableEq, Repr

/-- The tables with the links; the further columns of a standard are found by its id. -/
structure LinkState where
  wiki : WikiState
  links : Table StandardPageLink.key
  columns : String → StandardMeta

inductive LinkCall
  | createPage (id : String) (input : CreatePageInput) (authorId : String) (actor : Option AuthenticatedUser)
  | updatePage (id : String) (input : UpdatePageInput) (options : PageUpdateOptions)
  | removePage (id deletedById : String) (now : Time) (actor : Option AuthenticatedUser)
  | restorePage (id : String) (actor : Option AuthenticatedUser)
  | permanentRemovePage (id : String) (actor : Option AuthenticatedUser)
  | createStandard (input : Standards.CreateStandardInput) (userId : String)
      (actor : Option AuthenticatedUser) (c : Outside)
  | updateStandard (id : String) (input : Standards.UpdateStandardInput) (actor : Option AuthenticatedUser) (c : Outside)
  | linkPage (id pageId : String) (actor : Option AuthenticatedUser)
  | unlinkPage (id pageId : String) (actor : Option AuthenticatedUser)

namespace LinkState

variable (order : RowOrder) (st : LinkState)

def kb : KnowledgeBase := st.wiki.kb

/-- `existing.pages.map((link) => link.pageId)` -/
def pagesOf (id : String) : List String :=
  (st.links.findMany order fun link => link.standardId == id).map StandardPageLink.pageId

def details (id : String) : StandardDetails :=
  ⟨(st.columns id).status, (st.columns id).responsibleId, st.pagesOf order id⟩

def createStandard (input : Standards.CreateStandardInput) (userId : String) (actor : Option AuthenticatedUser)
    (c : Outside) :
    Except HttpError LinkState := do
  let wiki ← st.wiki.createStandard order input userId actor c
  let links ← ofOption (st.links.createMany (input.pageIds.map fun pageId => ⟨c.id, pageId⟩)) .uniqueConstraint
  pure ⟨wiki, links, Function.update st.columns c.id ⟨.draft, input.responsibleId⟩⟩

/-- An update of the content of an active standard sends it back to review. -/
def updatedMeta (input : Standards.UpdateStandardInput) (row : StandardMeta) : StandardMeta where
  status := if row.status = .active ∧ input.contentChange = true then .review else row.status
  responsibleId := input.responsibleId.getD row.responsibleId

def updateStandard (id : String) (input : Standards.UpdateStandardInput) (actor : Option AuthenticatedUser)
    (c : Outside) :
    Except HttpError LinkState := do
  let wiki ← st.wiki.updateStandard order id input actor c (st.details order id)
  pure { st with wiki := wiki, columns := Function.update st.columns id (updatedMeta input (st.columns id)) }

def standardAccess (actor : Option AuthenticatedUser) (id : String) : Except HttpError Unit :=
  st.wiki.assertAllowedOr order actor ⟨.standards, .update, .standard, id⟩ "Richtlinie wurde nicht gefunden."

/-- The answer, which is read after the write, is left out, here and in `unlinkPage`. -/
def linkPage (id pageId : String) (actor : Option AuthenticatedUser) : Except HttpError LinkState := do
  st.standardAccess order actor id
  st.wiki.assertLinkedPagesReadable order actor [pageId]
  let standard ← ofOption (st.kb.standards.find id) (.notFound "Richtlinie wurde nicht gefunden.")
  let page ← ofOption (st.kb.findLive pageId) (.notFound "Wiki-Seite wurde nicht gefunden.")
  throwIf (page.spaceId ≠ standard.spaceId)
    (.badRequest "Richtlinie und verknüpfte Wiki-Seite müssen demselben Bereich angehören.")
  -- `upsert` with an empty update
  if (st.links.find (id, pageId)).isSome then pure st
  else do
    let links ← ofOption (st.links.createMany [⟨id, pageId⟩]) .uniqueConstraint
    pure { st with links := links }

def unlinkPage (id pageId : String) (actor : Option AuthenticatedUser) : Except HttpError LinkState := do
  st.standardAccess order actor id
  pure { st with links := st.links.deleteMany fun link => link.standardId == id && link.pageId == pageId }

variable (slugify : String → String)

/-- Each call as a whole. The links of a deleted page go with it. -/
def perform : LinkCall → Except HttpError LinkState
  | .createPage id input authorId actor =>
    (st.wiki.create order slugify id input authorId actor).map fun wiki => { st with wiki := wiki }
  | .updatePage id input options => (st.wiki.update order id input options).map fun wiki => { st with wiki := wiki }
  | .removePage id deletedById now actor =>
    (st.wiki.remove order id deletedById now actor).map fun wiki => { st with wiki := wiki }
  | .restorePage id actor => (st.wiki.restore order id actor).map fun wiki => { st with wiki := wiki }
  | .permanentRemovePage id actor => (st.wiki.permanentRemove order id actor).map fun wiki =>
    { st with wiki := wiki, links := st.links.deleteMany fun link => link.pageId == id }
  | .createStandard input userId actor c => st.createStandard order input userId actor c
  | .updateStandard id input actor c => st.updateStandard order id input actor c
  | .linkPage id pageId actor => st.linkPage order id pageId actor
  | .unlinkPage id pageId actor => st.unlinkPage order id pageId actor

end LinkState

/-- A call that succeeds; one that fails changes nothing. -/
def LinkState.step (slugify : String → String) (st : LinkState) (call : RowOrder × LinkCall) : Option LinkState :=
  (st.perform call.1 slugify call.2).toOption

/-! ## The property -/

/-- The update changes texts only. -/
structure TextOnly (input : Standards.UpdateStandardInput) : Prop where
  space : input.spaceId = none
  category : input.categoryId = none
  responsible : input.responsibleId = none
  validFrom : input.validFrom = none
  validUntil : input.validUntil = none
  mcpVisible : input.mcpVisible = none

/-- Linked pages are in the space of their standard, and no update of the texts of a standard that is not deprecated is
refused if its actor may make it. -/
structure StaysTogether (st : LinkState) : Prop where
  space : ∀ link ∈ st.links, ∀ page standard, st.kb.pages.find link.pageId = some page →
    st.kb.standards.find link.standardId = some standard → page.spaceId = standard.spaceId
  editable : ∀ order id standard input actor c, st.kb.standards.find id = some standard →
    (st.columns id).status ≠ .deprecated →
    TextOnly input → st.standardAccess order actor id = .ok () → c.refused = none →
    ∃ st', st.updateStandard order id input actor c = .ok st'

/-- The invariant. -/
structure LinkInv (st : LinkState) : Prop where
  placed : ∀ id standard, st.kb.standards.find id = some standard →
    Enabled st.kb standard.spaceId .standard ∧ InCategory st.kb .standard standard.spaceId standard.categoryId
  linked : ∀ link ∈ st.links, ∃ page standard, st.kb.findLive link.pageId = some page ∧
    st.kb.standards.find link.standardId = some standard ∧ page.spaceId = standard.spaceId

variable {kb kb' : KnowledgeBase} {st st' : LinkState} {order : RowOrder} {slugify : String → String}
  {id spaceId : String}
  {actor : Option AuthenticatedUser} {c : Outside} {categoryId : Option String} {pageIds : List String}

/-- The two counts are the same exactly if every page is live, and in the space if there is one. -/
theorem livePageCount_iff {space : Option String} : kb.livePageCount pageIds space = (Js.distinct pageIds).length ↔
    ∀ id ∈ pageIds, ∃ page, kb.findLive id = some page ∧ ∀ spaceId, space = some spaceId → page.spaceId = spaceId := by
  generalize hp : (fun page : Page => pageIds.contains page.id && page.deletedAt.isNone &&
    space.all fun spaceId => page.spaceId == spaceId) = p
  have hcount : kb.livePageCount pageIds space = ((kb.pages.rows.filter p).map Page.id).length := by
    rw [KnowledgeBase.livePageCount, hp, List.countP_eq_length_filter, List.length_map]
  have hnodup : ((kb.pages.rows.filter p).map Page.id).Nodup := kb.pages.unique.sublist (List.filter_sublist.map _)
  have hsubset : (kb.pages.rows.filter p).map Page.id ⊆ Js.distinct pageIds := by
    intro id hid
    obtain ⟨page, hpage, rfl⟩ := List.mem_map.mp hid
    have hmatch := (List.mem_filter.mp hpage).2
    rw [← hp] at hmatch
    simp only [Bool.and_eq_true, List.contains_iff_mem] at hmatch
    exact Js.mem_distinct.mpr hmatch.1.1
  rw [hcount]
  constructor
  · intro hlength id hid
    have hperm := (hnodup.subperm hsubset).perm_of_length_le (by omega)
    obtain ⟨page, hpage, rfl⟩ := List.mem_map.mp (hperm.mem_iff.mpr (Js.mem_distinct.mpr hid))
    obtain ⟨hrow, hmatch⟩ := List.mem_filter.mp hpage
    rw [← hp] at hmatch
    simp only [Bool.and_eq_true, Option.isNone_iff_eq_none] at hmatch
    refine ⟨page, findLive_eq_some.mpr ⟨Table.find_of_mem hrow, hmatch.1.2⟩, ?_⟩
    rintro spaceId rfl
    simpa using hmatch.2
  · intro hall
    refine le_antisymm (hnodup.subperm hsubset).length_le ?_
    refine ((Js.nodup_distinct pageIds).subperm fun id hid => ?_).length_le
    obtain ⟨page, hpage, hspace⟩ := hall id (Js.mem_distinct.mp hid)
    obtain ⟨hfind, hlive⟩ := findLive_eq_some.mp hpage
    obtain ⟨hrow, rfl⟩ := Table.find_eq_some.mp hfind
    refine List.mem_map_of_mem (List.mem_filter.mpr ⟨hrow, ?_⟩)
    rw [← hp]
    cases space with
    | none => simp [Js.mem_distinct.mp hid, hlive]
    | some spaceId => simp [Js.mem_distinct.mp hid, hlive, hspace spaceId rfl]

theorem livePageCount_of_relations {space : String}
    (h : kb.assertStandardSpaceRelations space categoryId pageIds = .ok ()) :
    ∀ id ∈ pageIds, ∃ page, kb.findLive id = some page ∧ page.spaceId = space := by
  intro id hid
  unfold KnowledgeBase.assertStandardSpaceRelations at h
  obtain ⟨-, h⟩ := throwIf_bind_eq_ok.mp h
  have hcount := throwIf_eq_ok.mp h
  rw [not_and, not_not] at hcount
  obtain ⟨page, hpage, hspace⟩ := livePageCount_iff.mp (hcount (List.ne_nil_of_mem hid)) id hid
  exact ⟨page, hpage, hspace space rfl⟩

/-! ## The calls on standards -/

/-- What `create` inserts, and what it has checked. -/
theorem createStandard_created {st st' : WikiState} {input : Standards.CreateStandardInput} {userId : String}
    (h : st.createStandard order input userId actor c = .ok st') :
    ∃ spaceId, st.kb.standards.find c.id = none ∧
      Enabled st.kb spaceId .standard ∧ InCategory st.kb .standard spaceId input.categoryId ∧
      (∀ pageId ∈ input.pageIds, ∃ page, st.kb.findLive pageId = some page ∧ page.spaceId = spaceId) ∧
      (∀ x, st'.kb.standards.find x =
        if x = c.id then some ⟨c.id, input.title, spaceId, input.categoryId⟩ else st.kb.standards.find x) ∧
      st'.kb = { st.kb with standards := st'.kb.standards } := by
  unfold WikiState.createStandard at h
  obtain ⟨spaceId, hspace, h⟩ := bind_eq_ok.mp h
  obtain ⟨_, -, h⟩ := bind_eq_ok.mp h
  obtain ⟨_, -, h⟩ := bind_eq_ok.mp h
  obtain ⟨_, -, h⟩ := bind_eq_ok.mp h
  obtain ⟨_, hrelations, h⟩ := bind_eq_ok.mp h
  obtain ⟨_, -, h⟩ := bind_eq_ok.mp h
  obtain ⟨-, h⟩ := throwIf_bind_eq_ok.mp h
  split at h
  · cases h
  · next standards hcreate =>
    cases pure_eq_ok.mp h
    obtain ⟨henabled, hcategory⟩ := standard_placed hspace hrelations
    have hfresh : st.kb.standards.find c.id = none := by
      refine Table.find_eq_none.mpr fun row hrow => ?_
      exact Table.key_ne_of_createMany hcreate hrow (List.mem_singleton.mpr rfl)
    refine ⟨spaceId, hfresh, henabled, hcategory, livePageCount_of_relations hrelations, fun x => ?_, rfl⟩
    show standards.find x = _
    rw [Table.find_createMany hcreate, List.find?_singleton]
    by_cases hx : x = c.id
    · rw [if_pos hx, if_pos (decide_eq_true hx.symm), hx, hfresh, Option.none_or]
    · rw [if_neg hx, if_neg (by simpa using fun heq => hx heq.symm), Option.or_none]

/-- What `update` writes, and what it has checked; an update of the release alone writes nothing that is modelled. -/
theorem updateStandard_updated {st st' : WikiState} {input : Standards.UpdateStandardInput} {details : StandardDetails}
    (h : st.updateStandard order id input actor c details = .ok st') :
    st' = st ∨ ∃ existing spaceId, st.kb.standards.find id = some existing ∧
      Enabled st.kb spaceId .standard ∧ InCategory st.kb .standard spaceId (input.categoryId.getD existing.categoryId) ∧
      (∀ pageId ∈ details.pages, ∃ page, st.kb.findLive pageId = some page ∧ page.spaceId = spaceId) ∧
      (∀ x, st'.kb.standards.find x = if x = id then some (existing.write input spaceId) else st.kb.standards.find x) ∧
      st'.kb = { st.kb with standards := st'.kb.standards } := by
  unfold WikiState.updateStandard at h
  obtain ⟨_, -, h⟩ := bind_eq_ok.mp h
  split at h
  · cases h
  · next existing hfind =>
    obtain ⟨hmem, hid⟩ := Table.find_eq_some.mp hfind
    obtain ⟨-, h⟩ := throwIf_bind_eq_ok.mp h
    obtain ⟨-, h⟩ := throwIf_bind_eq_ok.mp h
    split at h
    · exact Or.inl (pure_eq_ok.mp h).symm
    · obtain ⟨spaceId, hspace, h⟩ := bind_eq_ok.mp h
      obtain ⟨_, -, h⟩ := bind_eq_ok.mp h
      obtain ⟨_, hrelations, h⟩ := bind_eq_ok.mp h
      obtain ⟨_, -, h⟩ := bind_eq_ok.mp h
      obtain ⟨_, -, h⟩ := bind_eq_ok.mp h
      cases pure_eq_ok.mp h
      obtain ⟨henabled, hcategory⟩ := standard_placed hspace hrelations
      refine Or.inr ⟨existing, spaceId, hfind, henabled, hcategory, livePageCount_of_relations hrelations,
        fun x => ?_, rfl⟩
      show (st.kb.standards.updateMany (fun row => row.id == id) (Standard.write input spaceId)
        fun _ => Standard.write_id).find x = _
      rw [Table.find_updateMany]
      by_cases hx : x = id
      · rw [if_pos hx, hx, hfind, Option.map_some, if_pos (beq_iff_eq.mpr hid)]
      · rw [if_neg hx]
        cases hrow : st.kb.standards.find x with
        | none => rfl
        | some row =>
          have hne : row.id ≠ id := fun heq => hx ((Table.find_eq_some.mp hrow).2.symm.trans heq)
          rw [Option.map_some, if_neg (by simpa using hne)]

/-! ## The invariant -/

/-- Is there a standard with a link to the page? -/
def LinkState.hasLinkTo (st : LinkState) (pageId : String) : Bool := st.links.rows.any fun link => link.pageId == pageId

/-- A linked page is not put into the trash, and no update takes it to another space. -/
def KeepsLinks (st : LinkState) : LinkCall → Bool
  | .updatePage id input _ => !st.hasLinkTo id || !input.assignmentChanged ||
    (st.kb.findLive id).all fun page => st.kb.requestedSpace input.assignment page == page.spaceId
  | .removePage id _ _ _ => !st.hasLinkTo id
  | _ => true

theorem not_hasLinkTo_iff {pageId : String} : st.hasLinkTo pageId = false ↔ ∀ link ∈ st.links, link.pageId ≠ pageId := by
  rw [LinkState.hasLinkTo, List.any_eq_false]
  exact forall₂_congr fun link _ => by rw [beq_iff_eq]

/-- Pages change: the linked ones are still live, and where they were. -/
theorem LinkInv.pages (h : LinkInv st) {wiki : WikiState} {links : Table StandardPageLink.key}
    (hrest : wiki.kb = { st.kb with pages := wiki.kb.pages }) (hlinks : ∀ link ∈ links, link ∈ st.links)
    (hpages : ∀ link ∈ links, ∀ page, st.kb.findLive link.pageId = some page →
      ∃ page', wiki.kb.findLive link.pageId = some page' ∧ page'.spaceId = page.spaceId) :
    LinkInv { st with wiki := wiki, links := links } := by
  refine ⟨fun id standard hfind => ?_, fun link hlink => ?_⟩
  · have hstandards : wiki.kb.standards = st.kb.standards := by rw [hrest]
    have hplaced := h.placed id standard (hstandards ▸ hfind)
    unfold Enabled InCategory LinkState.kb at hplaced ⊢
    rw [hrest]
    exact hplaced
  · obtain ⟨page, standard, hpage, hstandard, hspace⟩ := h.linked link (hlinks link hlink)
    obtain ⟨page', hpage', hsame⟩ := hpages link hlink page hpage
    refine ⟨page', standard, hpage', ?_, hsame.trans hspace⟩
    show wiki.kb.standards.find link.standardId = some standard
    rw [hrest]
    exact hstandard

theorem LinkInv.createPage {input : CreatePageInput} {authorId : String} {wiki : WikiState} (h : LinkInv st)
    (hok : st.wiki.create order slugify id input authorId actor = .ok wiki) : LinkInv { st with wiki := wiki } := by
  obtain ⟨spaceId, hcreated⟩ := create_created hok
  refine h.pages hcreated.rest (fun _ hlink => hlink) fun link _ page hpage => ⟨page, ?_, rfl⟩
  obtain ⟨hfind, hlive⟩ := findLive_eq_some.mp hpage
  refine findLive_eq_some.mpr ⟨?_, hlive⟩
  rw [hcreated.find, if_neg]
  · exact hfind
  · intro heq
    rw [heq] at hfind
    exact nomatch hfind.symm.trans hcreated.fresh

theorem LinkInv.updatePage {input : UpdatePageInput} {options : PageUpdateOptions} {wiki : WikiState} (h : LinkInv st)
    (hkeeps : KeepsLinks st (.updatePage id input options) = true)
    (hok : st.wiki.update order id input options = .ok wiki) :
    LinkInv { st with wiki := wiki } := by
  obtain ⟨page, spaceId, rfl, hupdated⟩ := update_updated hok
  refine h.pages hupdated.rest (fun _ hlink => hlink) fun link hlink row hrow => ?_
  obtain ⟨hfind, hlive⟩ : st.wiki.kb.pages.find link.pageId = some row ∧ row.deletedAt = none := findLive_eq_some.mp hrow
  by_cases hx : link.pageId = page.id
  · have hpage : page = row := Option.some.inj (hupdated.found.symm.trans (hx ▸ hfind))
    subst hpage
    refine ⟨page.write input spaceId page, findLive_eq_some.mpr ⟨by rw [hupdated.find, if_pos hx], hlive⟩, ?_⟩
    show spaceId = page.spaceId
    cases hchanged : input.assignmentChanged with
    | false => exact (hupdated.stays hchanged).1
    | true =>
      have hlinked : st.hasLinkTo page.id = true := List.any_eq_true.mpr ⟨link, hlink, by simp [hx]⟩
      have hlivePage : st.kb.findLive page.id = some page := hx ▸ hrow
      simp only [KeepsLinks, hlinked, hchanged, hlivePage, Bool.not_true, Bool.false_or, Option.all_some,
        beq_iff_eq] at hkeeps
      exact (resolvePageSpace_requested (hupdated.resolved hchanged)).trans hkeeps
  · exact ⟨row, findLive_eq_some.mpr ⟨by rw [hupdated.find, if_neg hx, hfind], hlive⟩, rfl⟩

theorem LinkInv.removePage {deletedById : String} {now : Time} {wiki : WikiState} (h : LinkInv st)
    (hkeeps : KeepsLinks st (.removePage id deletedById now actor) = true)
    (hok : st.wiki.remove order id deletedById now actor = .ok wiki) : LinkInv { st with wiki := wiki } := by
  obtain ⟨page, rfl, hremoved⟩ := remove_removed hok
  have hnone := not_hasLinkTo_iff.mp ((Bool.not_eq_true' _).mp hkeeps)
  refine h.pages hremoved.rest (fun _ hlink => hlink) fun link hlink row hrow => ?_
  obtain ⟨hfind, hlive⟩ : st.wiki.kb.pages.find link.pageId = some row ∧ row.deletedAt = none := findLive_eq_some.mp hrow
  have hother : row.id ≠ page.id := (Table.find_eq_some.mp hfind).2 ▸ hnone link hlink
  refine ⟨trashed page now deletedById row, findLive_eq_some.mpr ⟨by rw [hremoved.find, hfind, Option.map_some], ?_⟩, ?_⟩
  · unfold trashed
    rw [if_neg hother]
    split <;> exact hlive
  · unfold trashed
    rw [if_neg hother]
    split <;> rfl

theorem LinkInv.restorePage {wiki : WikiState} (h : LinkInv st) (hok : st.wiki.restore order id actor = .ok wiki) :
    LinkInv { st with wiki := wiki } := by
  obtain ⟨page, rfl, hrestored⟩ := restore_restored hok
  refine h.pages hrestored.rest (fun _ hlink => hlink) fun link _ row hrow => ?_
  obtain ⟨hfind, hlive⟩ : st.wiki.kb.pages.find link.pageId = some row ∧ row.deletedAt = none := findLive_eq_some.mp hrow
  refine ⟨row, findLive_eq_some.mpr ⟨?_, hlive⟩, rfl⟩
  rw [hrestored.find, if_neg]
  · exact hfind
  · intro hx
    have hpage : page = row := Option.some.inj (hrestored.found.symm.trans (hx ▸ hfind))
    have htrashed := hrestored.trashed
    rw [hpage, hlive] at htrashed
    exact nomatch htrashed

/-- The links of the page go with it. -/
theorem LinkInv.permanentRemovePage {wiki : WikiState} (h : LinkInv st)
    (hok : st.wiki.permanentRemove order id actor = .ok wiki) :
    LinkInv { st with wiki := wiki, links := st.links.deleteMany fun link => link.pageId == id } := by
  obtain ⟨page, rfl, hpurged⟩ := permanentRemove_purged hok
  refine h.pages hpurged.rest (fun link hlink => (Table.mem_deleteMany.mp hlink).1) fun link hlink row hrow => ?_
  obtain ⟨hfind, hlive⟩ : st.wiki.kb.pages.find link.pageId = some row ∧ row.deletedAt = none := findLive_eq_some.mp hrow
  have hother : link.pageId ≠ page.id := by simpa using (Table.mem_deleteMany.mp hlink).2
  have hfind' := hpurged.find link.pageId
  rw [if_neg hother, hfind, Option.map_some] at hfind'
  refine ⟨_, findLive_eq_some.mpr ⟨hfind', ?_⟩, ?_⟩
  · split <;> exact hlive
  · split <;> rfl

/-- Standards change, and pages do not. -/
theorem linkInv_standards {wiki : WikiState} {links : Table StandardPageLink.key} {columns : String → StandardMeta}
    (hrest : wiki.kb = { st.kb with standards := wiki.kb.standards })
    (hplaced : ∀ id standard, wiki.kb.standards.find id = some standard →
      Enabled st.kb standard.spaceId .standard ∧ InCategory st.kb .standard standard.spaceId standard.categoryId)
    (hlinked : ∀ link ∈ links, ∃ page standard, st.kb.findLive link.pageId = some page ∧
      wiki.kb.standards.find link.standardId = some standard ∧ page.spaceId = standard.spaceId) :
    LinkInv ⟨wiki, links, columns⟩ := by
  refine ⟨fun id standard hfind => ?_, fun link hlink => ?_⟩
  · have hplaced := hplaced id standard hfind
    unfold Enabled InCategory LinkState.kb at hplaced ⊢
    rw [hrest]
    exact hplaced
  · obtain ⟨page, standard, hpage, hstandard, hspace⟩ := hlinked link hlink
    refine ⟨page, standard, ?_, hstandard, hspace⟩
    show wiki.kb.findLive link.pageId = some page
    rw [hrest]
    exact hpage

theorem LinkInv.createStandard {input : Standards.CreateStandardInput} {userId : String} (h : LinkInv st)
    (hok : st.createStandard order input userId actor c = .ok st') : LinkInv st' := by
  unfold LinkState.createStandard at hok
  obtain ⟨wiki, hwiki, hok⟩ := bind_eq_ok.mp hok
  obtain ⟨links, hlinks, hok⟩ := bind_eq_ok.mp hok
  cases pure_eq_ok.mp hok
  have hlinks := ofOption_eq_ok.mp hlinks
  obtain ⟨spaceId, hfresh, henabled, hcategory, hpages, hfind, hrest⟩ := createStandard_created hwiki
  refine linkInv_standards hrest (fun id standard hstandard => ?_) fun link hlink => ?_
  · rw [hfind] at hstandard
    split at hstandard
    · cases hstandard
      exact ⟨henabled, hcategory⟩
    · exact h.placed id standard hstandard
  · rcases (Table.mem_createMany hlinks).mp hlink with hold | hnew
    · obtain ⟨page, standard, hpage, hstandard, hspace⟩ := h.linked link hold
      refine ⟨page, standard, hpage, ?_, hspace⟩
      rw [hfind, if_neg]
      · exact hstandard
      · intro heq
        rw [heq] at hstandard
        exact nomatch hstandard.symm.trans hfresh
    · obtain ⟨pageId, hpageId, rfl⟩ := List.mem_map.mp hnew
      obtain ⟨page, hpage, hspace⟩ := hpages pageId hpageId
      exact ⟨page, _, hpage, by rw [hfind, if_pos rfl], hspace⟩

/-- The pages of the standard have been checked against its new space. -/
theorem LinkInv.updateStandard {input : Standards.UpdateStandardInput} (h : LinkInv st)
    (hok : st.updateStandard order id input actor c = .ok st') : LinkInv st' := by
  unfold LinkState.updateStandard at hok
  obtain ⟨wiki, hwiki, hok⟩ := bind_eq_ok.mp hok
  cases pure_eq_ok.mp hok
  rcases updateStandard_updated hwiki with rfl | ⟨existing, spaceId, _, henabled, hcategory, hpages, hfind, hrest⟩
  · exact ⟨h.placed, h.linked⟩
  · refine linkInv_standards hrest (fun x standard hstandard => ?_) fun link hlink => ?_
    · rw [hfind] at hstandard
      split at hstandard
      · cases hstandard
        exact ⟨henabled, hcategory⟩
      · exact h.placed x standard hstandard
    · by_cases hx : link.standardId = id
      · have hpageId : link.pageId ∈ st.pagesOf order id :=
          List.mem_map_of_mem (Table.mem_findMany.mpr ⟨hlink, beq_iff_eq.mpr hx⟩)
        obtain ⟨page, hpage, hspace⟩ := hpages link.pageId hpageId
        exact ⟨page, _, hpage, by rw [hfind, if_pos hx], hspace⟩
      · obtain ⟨page, standard, hpage, hstandard, hspace⟩ := h.linked link hlink
        exact ⟨page, standard, hpage, by rw [hfind, if_neg hx]; exact hstandard, hspace⟩

theorem LinkInv.linkPage {pageId : String} (h : LinkInv st) (hok : st.linkPage order id pageId actor = .ok st') :
    LinkInv st' := by
  unfold LinkState.linkPage at hok
  obtain ⟨_, -, hok⟩ := bind_eq_ok.mp hok
  obtain ⟨_, -, hok⟩ := bind_eq_ok.mp hok
  obtain ⟨standard, hstandard, hok⟩ := bind_eq_ok.mp hok
  obtain ⟨page, hpage, hok⟩ := bind_eq_ok.mp hok
  obtain ⟨hspace, hok⟩ := throwIf_bind_eq_ok.mp hok
  split at hok
  · cases pure_eq_ok.mp hok
    exact h
  · obtain ⟨links, hlinks, hok⟩ := bind_eq_ok.mp hok
    cases pure_eq_ok.mp hok
    refine ⟨h.placed, fun link hlink => ?_⟩
    rcases (Table.mem_createMany (ofOption_eq_ok.mp hlinks)).mp hlink with hold | hnew
    · exact h.linked link hold
    · obtain rfl := List.mem_singleton.mp hnew
      exact ⟨page, standard, ofOption_eq_ok.mp hpage, ofOption_eq_ok.mp hstandard, not_not.mp hspace⟩

theorem LinkInv.unlinkPage {pageId : String} (h : LinkInv st) (hok : st.unlinkPage order id pageId actor = .ok st') :
    LinkInv st' := by
  unfold LinkState.unlinkPage at hok
  obtain ⟨_, -, hok⟩ := bind_eq_ok.mp hok
  cases pure_eq_ok.mp hok
  exact ⟨h.placed, fun link hlink => h.linked link (Table.mem_deleteMany.mp hlink).1⟩

/-- Each call keeps the invariant, if it leaves linked pages where they are. -/
theorem step_linkInv {call : RowOrder × LinkCall} (h : LinkInv st) (hkeeps : KeepsLinks st call.2 = true)
    (hstep : st.step slugify call = some st') : LinkInv st' := by
  obtain ⟨order, call⟩ := call
  have hok : st.perform order slugify call = .ok st' := toOption_eq_some.mp hstep
  cases call with
  | createPage id input authorId actor =>
    obtain ⟨wiki, hwiki, rfl⟩ := map_eq_ok hok
    exact h.createPage hwiki
  | updatePage id input options =>
    obtain ⟨wiki, hwiki, rfl⟩ := map_eq_ok hok
    exact h.updatePage hkeeps hwiki
  | removePage id deletedById now actor =>
    obtain ⟨wiki, hwiki, rfl⟩ := map_eq_ok hok
    exact h.removePage hkeeps hwiki
  | restorePage id actor =>
    obtain ⟨wiki, hwiki, rfl⟩ := map_eq_ok hok
    exact h.restorePage hwiki
  | permanentRemovePage id actor =>
    obtain ⟨wiki, hwiki, rfl⟩ := map_eq_ok hok
    exact h.permanentRemovePage hwiki
  | createStandard input userId actor c => exact h.createStandard hok
  | updateStandard id input actor c => exact h.updateStandard hok
  | linkPage id pageId actor => exact h.linkPage hok
  | unlinkPage id pageId actor => exact h.unlinkPage hok

/-! ## Updates of texts -/

theorem resolveOpenSpace_of_enabled {kind : KnowledgeKind} (h : Enabled kb spaceId kind) :
    kb.resolveOpenSpace kind (some spaceId) = .ok spaceId := by
  obtain ⟨space, hfind, hkind⟩ := h
  unfold KnowledgeBase.resolveOpenSpace
  rw [Option.getD_some, hfind]
  dsimp only
  rw [if_pos (List.contains_iff_mem.mpr hkind), (Table.find_eq_some.mp hfind).2]

/-- The space of a standard that stays where it is. -/
theorem resolveStandardSpace_kept (henabled : Enabled kb spaceId .standard)
    (hcategory : InCategory kb .standard spaceId categoryId)
    (hpages : ∀ pageId ∈ pageIds, ∃ page, kb.findLive pageId = some page ∧ page.spaceId = spaceId) :
    kb.resolveStandardSpace none categoryId pageIds (some spaceId) = .ok spaceId := by
  unfold KnowledgeBase.resolveStandardSpace
  refine (throwIf_bind_eq_ok).mpr ⟨?_, ?_⟩
  · rintro ⟨hsome, hscope⟩
    obtain ⟨x, rfl⟩ := Option.isSome_iff_exists.mp hsome
    obtain ⟨category, hfind, hkind, -⟩ := hcategory x rfl
    simp [hfind, hkind] at hscope
  · rw [← resolveOpenSpace_of_enabled henabled, Option.none_or]
    congr 1
    cases categoryId with
    | some x =>
      obtain ⟨category, hfind, -, hspace⟩ := hcategory x rfl
      simp [hfind, hspace]
    | none =>
      cases pageIds with
      | nil => rfl
      | cons pageId rest =>
        obtain ⟨page, hpage, hspace⟩ := hpages pageId List.mem_cons_self
        simp [hpage, hspace]

theorem assertStandardSpaceRelations_kept (hcategory : InCategory kb .standard spaceId categoryId)
    (hpages : ∀ pageId ∈ pageIds, ∃ page, kb.findLive pageId = some page ∧ page.spaceId = spaceId) :
    kb.assertStandardSpaceRelations spaceId categoryId pageIds = .ok () := by
  unfold KnowledgeBase.assertStandardSpaceRelations
  refine (throwIf_bind_eq_ok).mpr ⟨fun hother => ?_, throwIf_eq_ok.mpr fun hcount => hcount.2 ?_⟩
  · obtain ⟨category, hfound, hne⟩ := (Option.any_eq_true _ _).mp hother
    obtain ⟨x, rfl, hfind⟩ := Option.bind_eq_some_iff.mp hfound
    obtain ⟨found, hfound, -, hspace⟩ := hcategory x rfl
    rw [hfind] at hfound
    cases hfound
    exact (bne_iff_ne.mp hne) hspace
  · refine livePageCount_iff.mpr fun pageId hpageId => ?_
    obtain ⟨page, hpage, hspace⟩ := hpages pageId hpageId
    exact ⟨page, hpage, fun _ heq => Option.some.inj heq ▸ hspace⟩

/-- An update of the texts passes every other check. -/
theorem updateStandard_textOnly (st : WikiState) (details : StandardDetails) {standard : Standard}
    {input : Standards.UpdateStandardInput}
    (haccess : st.assertAllowedOr order actor ⟨.standards, .update, .standard, id⟩
      "Richtlinie wurde nicht gefunden." = .ok ())
    (hfind : st.kb.standards.find id = some standard) (hstatus : details.status ≠ .deprecated) (htext : TextOnly input)
    (hspace : st.kb.resolveStandardSpace none standard.categoryId details.pages (some standard.spaceId) =
      .ok standard.spaceId)
    (hrelations : st.kb.assertStandardSpaceRelations standard.spaceId standard.categoryId details.pages = .ok ())
    (hc : c.refused = none) : ∃ st', st.updateStandard order id input actor c details = .ok st' := by
  have hcheck : c.check = .ok () := by rw [Outside.check, hc]
  unfold WikiState.updateStandard
  rw [hfind, htext.space, htext.category, htext.responsible, htext.validFrom, htext.validUntil, htext.mcpVisible]
  let standards := st.kb.standards.updateMany (fun row => row.id == id) (Standard.write input standard.spaceId)
    fun _ => Standard.write_id
  refine ⟨st.setKnowledge { st.kb with standards := standards }, bind_eq_ok.mpr ⟨(), haccess, ?_⟩⟩
  refine throwIf_bind_eq_ok.mpr ⟨hstatus, throwIf_bind_eq_ok.mpr ⟨(fun hvisible => nomatch hvisible.1), ?_⟩⟩
  rw [if_neg (fun hvisible => nomatch hvisible.2)]
  refine bind_eq_ok.mpr ⟨standard.spaceId, hspace, bind_eq_ok.mpr ⟨(), ?_, ?_⟩⟩
  · rw [checkIf, if_neg (by simp)]
  · refine bind_eq_ok.mpr ⟨(), hrelations, bind_eq_ok.mpr ⟨(), ?_, bind_eq_ok.mpr ⟨(), hcheck, rfl⟩⟩⟩
    rw [checkIf, if_neg (by simp)]

/-- What the invariant is for. -/
theorem LinkInv.staysTogether (h : LinkInv st) : StaysTogether st := by
  refine ⟨fun link hlink page standard hpage hstandard => ?_,
    fun order id standard input actor c hfind hstatus htext haccess hc => ?_⟩
  · obtain ⟨page', standard', hpage', hstandard', hspace⟩ := h.linked link hlink
    obtain rfl : page' = page := Option.some.inj ((findLive_eq_some.mp hpage').1.symm.trans hpage)
    obtain rfl : standard' = standard := Option.some.inj (hstandard'.symm.trans hstandard)
    exact hspace
  · obtain ⟨henabled, hcategory⟩ := h.placed id standard hfind
    have hpages : ∀ pageId ∈ st.pagesOf order id, ∃ page, st.kb.findLive pageId = some page ∧
        page.spaceId = standard.spaceId := by
      intro pageId hpageId
      obtain ⟨link, hlink, rfl⟩ := List.mem_map.mp hpageId
      obtain ⟨hrow, hid⟩ := Table.mem_findMany.mp hlink
      obtain ⟨page, found, hpage, hfound, hspace⟩ := h.linked link hrow
      rw [beq_iff_eq.mp hid] at hfound
      obtain rfl : found = standard := Option.some.inj (hfound.symm.trans hfind)
      exact ⟨page, hpage, hspace⟩
    obtain ⟨wiki, hwiki⟩ := updateStandard_textOnly st.wiki (st.details order id) haccess hfind hstatus htext
      (resolveStandardSpace_kept henabled hcategory hpages) (assertStandardSpaceRelations_kept hcategory hpages) hc
    exact ⟨_, bind_eq_ok.mpr ⟨wiki, hwiki, rfl⟩⟩

/-! ## Runs -/

/-- **Linked pages stay in the space of their standard, and the texts of standards can be edited, in every run in which no
linked page is put into the trash or moved to another space.** -/
theorem links_stay_together (slugify : String → String) (st st' : LinkState) (calls : List (RowOrder × LinkCall))
    (hstandards : st.kb.standards.rows = []) (hlinks : st.links.rows = [])
    (hkeeps : Runs.Along (LinkState.step slugify) (fun t call => KeepsLinks t call.2 = true) st calls)
    (hrun : Runs.run (LinkState.step slugify) st calls = some st') : StaysTogether st' := by
  have hstart : LinkInv st := by
    refine ⟨fun id standard hfind => ?_, fun link hlink => ?_⟩
    · have hmem : standard ∈ st.kb.standards.rows := (Table.find_eq_some.mp hfind).1
      rw [hstandards] at hmem
      cases hmem
    · have hmem : link ∈ st.links.rows := hlink
      rw [hlinks] at hmem
      cases hmem
  exact (Runs.inv_run_along (fun _ _ _ h hcall hstep => step_linkInv h hcall hstep) hstart hkeeps hrun).staysTogether

/-! ## A page that moves -/

namespace LinksDemo

/-- Two spaces for pages and standards, and nothing in them. -/
def start : LinkState where
  wiki := TreeDemo.start.setKnowledge { TreeDemo.start.kb with
    spaces :=
      ⟨[⟨defaultSpaceId, "Wiki", .opened, [.wiki, .standard]⟩, ⟨"it", "IT", .opened, [.wiki, .standard]⟩], by decide⟩ }
  links := .empty
  columns := fun _ => ⟨.draft, ""⟩

def newPage (id : String) : RowOrder × LinkCall :=
  (.stored,
    .createPage id ⟨id, none, .page, "", none, .published, false, false, none, none⟩ "admin" (some TreeDemo.admin))

/-- A standard about servers, linked to pages. -/
def newStandard (pageIds : List String) : RowOrder × LinkCall :=
  (.stored, .createStandard ⟨"Server", "", none, "", none, none, "admin", none, none, false, pageIds, []⟩ "admin"
    (some TreeDemo.admin) ⟨none, "server"⟩)

def movePage (id spaceId : String) : RowOrder × LinkCall :=
  (.stored, .updatePage id { UpdatePageInput.empty with spaceId := some spaceId } ⟨some TreeDemo.admin, none, none⟩)

def trashPage (id : String) : RowOrder × LinkCall := (.stored, .removePage id "admin" 0 (some TreeDemo.admin))

/-- Two pages and a standard with both. -/
def linked : List (RowOrder × LinkCall) := [newPage "guide", newPage "rules", newStandard ["guide", "rules"]]

/-- The answer to a new title for the standard. -/
def retitled (st : LinkState) : Option HttpError :=
  match st.updateStandard .stored "server" { Standards.UpdateStandardInput.empty with title := some "Servers" }
    (some TreeDemo.admin) ⟨none, ""⟩ with
  | .ok _ => none
  | .error e => some e

/-- Is a linked page in another space than its standard? -/
def apart (st : LinkState) : Bool :=
  st.links.rows.any fun link => (st.kb.pages.find link.pageId).any fun page =>
    (st.kb.standards.find link.standardId).any fun standard => page.spaceId != standard.spaceId

end LinksDemo

/-- A page without a standard moves, and so may a linked one within its space. -/
theorem links_stay_together_guide : ∃ st', Runs.run (LinkState.step KindsDemo.slug) LinksDemo.start
      [LinksDemo.newPage "guide", LinksDemo.newPage "notes", LinksDemo.newStandard ["guide"],
        LinksDemo.movePage "notes" "it",
        LinksDemo.movePage "guide" defaultSpaceId, LinksDemo.trashPage "notes"] = some st' ∧ StaysTogether st' := by
  have hrun : (Runs.run (LinkState.step KindsDemo.slug) LinksDemo.start
      [LinksDemo.newPage "guide", LinksDemo.newPage "notes", LinksDemo.newStandard ["guide"],
        LinksDemo.movePage "notes" "it",
        LinksDemo.movePage "guide" defaultSpaceId, LinksDemo.trashPage "notes"]).isSome := by decide +kernel
  obtain ⟨st', hrun⟩ := Option.isSome_iff_exists.mp hrun
  exact ⟨st', hrun, links_stay_together KindsDemo.slug LinksDemo.start st' _ rfl rfl (by decide +kernel) hrun⟩

theorem not_staysTogether_of_apart (h : LinksDemo.apart st = true) : ¬StaysTogether st := by
  intro htogether
  obtain ⟨link, hlink, hany⟩ := List.any_eq_true.mp h
  obtain ⟨page, hpage, hany⟩ := (Option.any_eq_true _ _).mp hany
  obtain ⟨standard, hstandard, hne⟩ := (Option.any_eq_true _ _).mp hany
  exact (bne_iff_ne.mp hne) (htogether.space link hlink page standard hpage hstandard)

theorem not_staysTogether_of_retitled {e : HttpError} (hfound : (st.kb.standards.find "server").isSome)
    (hstatus : (st.columns "server").status ≠ .deprecated)
    (haccess : (st.standardAccess .stored (some TreeDemo.admin) "server").toOption.isSome)
    (h : LinksDemo.retitled st = some e) :
    ¬StaysTogether st := by
  intro htogether
  obtain ⟨standard, hfind⟩ := Option.isSome_iff_exists.mp hfound
  obtain ⟨_, haccess⟩ := Option.isSome_iff_exists.mp haccess
  have htext : TextOnly { Standards.UpdateStandardInput.empty with title := some "Servers" } :=
    ⟨rfl, rfl, rfl, rfl, rfl, rfl⟩
  obtain ⟨st', hok⟩ := htogether.editable .stored "server" standard _ (some TreeDemo.admin) ⟨none, ""⟩ hfind hstatus htext
    (toOption_eq_some.mp haccess) rfl
  rw [LinksDemo.retitled, hok] at h
  cases h

/-- After the move of one of two linked pages to another space, and after its removal, the standard cannot get a new
title. -/
theorem moved_page_locks_standard :
    (∃ st', Runs.run (LinkState.step KindsDemo.slug) LinksDemo.start
        (LinksDemo.linked ++ [LinksDemo.movePage "guide" "it"]) = some st' ∧
      LinksDemo.apart st' = true ∧
      LinksDemo.retitled st' = some (.badRequest "Mindestens eine Wiki-Seite gehört zu einem anderen Bereich.") ∧
      ¬StaysTogether st') ∧
    ∃ st', Runs.run (LinkState.step KindsDemo.slug) LinksDemo.start
        (LinksDemo.linked ++ [LinksDemo.trashPage "guide"]) = some st' ∧
      LinksDemo.retitled st' = some (.badRequest "Mindestens eine Wiki-Seite gehört zu einem anderen Bereich.") ∧
      ¬StaysTogether st' := by
  have hmoved : (Runs.run (LinkState.step KindsDemo.slug) LinksDemo.start
      (LinksDemo.linked ++ [LinksDemo.movePage "guide" "it"])).any fun st' =>
        LinksDemo.apart st' && decide (LinksDemo.retitled st' =
          some (.badRequest "Mindestens eine Wiki-Seite gehört zu einem anderen Bereich.")) := by decide +kernel
  have htrashed : (Runs.run (LinkState.step KindsDemo.slug) LinksDemo.start
      (LinksDemo.linked ++ [LinksDemo.trashPage "guide"])).any fun st' =>
        (st'.kb.standards.find "server").isSome && decide ((st'.columns "server").status ≠ .deprecated) &&
        (st'.standardAccess .stored (some TreeDemo.admin) "server").toOption.isSome &&
        decide (LinksDemo.retitled st' =
          some (.badRequest "Mindestens eine Wiki-Seite gehört zu einem anderen Bereich.")) := by decide +kernel
  refine ⟨?_, ?_⟩
  · obtain ⟨st', hrun, hresult⟩ := (Option.any_eq_true _ _).mp hmoved
    simp only [Bool.and_eq_true, decide_eq_true_eq] at hresult
    exact ⟨st', hrun, hresult.1, hresult.2, not_staysTogether_of_apart hresult.1⟩
  · obtain ⟨st', hrun, hresult⟩ := (Option.any_eq_true _ _).mp htrashed
    simp only [Bool.and_eq_true, decide_eq_true_eq] at hresult
    obtain ⟨⟨⟨hfound, hstatus⟩, haccess⟩, hretitled⟩ := hresult
    exact ⟨st', hrun, hretitled, not_staysTogether_of_retitled hfound hstatus haccess hretitled⟩

end AdWiki.Wiki
