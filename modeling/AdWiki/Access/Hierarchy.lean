import AdWiki.Access.Target
import AdWiki.Lib.Ancestors
import AdWiki.Lib.Fallible

/-!
# Well-formed hierarchies

`IsHierarchy` says, without a loop, what the hierarchy of a target is: for a page the chain of its parents, which has at
most 100 pages, stays in one space and one category, and ends in the category and the space. Both pipelines compute it:
`resolveHierarchy_ok` for one target, `resolveHierarchies_ok` for many.
-/

namespace AdWiki.Access

open Wiki Ancestors

variable {kb : KnowledgeBase} {order : RowOrder}

/-- The pages from a page up to its root. -/
abbrev PageChain (pages : Table Page.id) (id : String) (l : List Page) : Prop := Chain pages.find Page.parentId id l

/-- A category that is named exists and lies in the space. -/
def CategoryIn (kb : KnowledgeBase) (categoryId : Option String) (spaceId : String) : Prop :=
  ∀ id, categoryId = some id → ∃ category, kb.categories.find id = some category ∧ category.spaceId = spaceId

/-- The target of the category, if one is named. -/
def categoryTargets (kb : KnowledgeBase) (categoryId : Option String) (resource : Resource) :
    List ResolvedResourceTarget :=
  (categoryId.bind kb.categories.find).toList.map fun category => categoryTarget category resource

/-- The ancestor chain of a page: it never revisits a page, takes at most 100, stays in one space and one category, and
the category belongs to the space. -/
structure PageLine (kb : KnowledgeBase) (page : Page) (l : List Page) : Prop where
  chain : PageChain kb.pages page.id l
  nodup : (l.map Page.id).Nodup
  length : l.length ≤ 100
  line : ∀ a ∈ l, a.spaceId = page.spaceId ∧ a.categoryId = page.categoryId
  category : CategoryIn kb page.categoryId page.spaceId

/-- The hierarchy of a target. -/
inductive IsHierarchy (kb : KnowledgeBase) : TargetType → String → ResolvedTargetHierarchy → Prop
  | space {id space} : kb.spaces.find id = some space →
    IsHierarchy kb .space id ⟨[spaceTarget space], some space.visibility, none⟩
  | category {id category space} : kb.categories.find id = some category →
    kb.spaces.find category.spaceId = some space →
    IsHierarchy kb .category id
      ⟨[categoryTarget category (resourceForScope category.scope), spaceTarget space], some space.visibility, none⟩
  | page {id page l space} : kb.pages.find id = some page → PageLine kb page l →
    kb.spaces.find page.spaceId = some space →
    IsHierarchy kb .page id
      ⟨l.map pageTarget ++ categoryTargets kb page.categoryId .pages ++ [spaceTarget space], some space.visibility, none⟩
  | personalNote {id note shares} : kb.notes.find id = some note → note.spaceId = none →
    shares.Perm (kb.noteShares.rows.filter fun share => share.noteId == note.id) →
    IsHierarchy kb .note id ⟨[noteTarget note], none, some ⟨note.ownerId, shares⟩⟩
  | note {id note spaceId space} : kb.notes.find id = some note → note.spaceId = some spaceId →
    kb.spaces.find spaceId = some space → CategoryIn kb note.categoryId spaceId →
    IsHierarchy kb .note id
      ⟨noteTarget note :: categoryTargets kb note.categoryId .notes ++ [spaceTarget space], some space.visibility, none⟩
  | standard {id standard space} : kb.standards.find id = some standard →
    kb.spaces.find standard.spaceId = some space → CategoryIn kb standard.categoryId standard.spaceId →
    IsHierarchy kb .standard id
      ⟨standardTarget standard :: categoryTargets kb standard.categoryId .standards ++ [spaceTarget space],
        some space.visibility, none⟩

/-- The target exists and has a well-formed hierarchy. -/
def WellFormed (kb : KnowledgeBase) (type : TargetType) (id : String) : Prop := ∃ h, IsHierarchy kb type id h

theorem find_id {pages : Table Page.id} {id : String} {page : Page} (h : pages.find id = some page) : page.id = id :=
  (Table.find_eq_some.mp h).2

/-! ## A single target -/

theorem categoryLevel_ok {categoryId : Option String} {spaceId message : String} {resource : Resource}
    (h : CategoryIn kb categoryId spaceId) :
    categoryLevel kb categoryId spaceId resource message = .ok (categoryTargets kb categoryId resource) := by
  cases categoryId with
  | none => rfl
  | some id =>
    obtain ⟨category, hfind, hspace⟩ := h id rfl
    simp [categoryLevel, categoryTargets, hfind, hspace]

theorem spaceLevel_ok {spaceId : String} {space : KnowledgeSpace} {path : List ResolvedResourceTarget}
    (h : kb.spaces.find spaceId = some space) :
    spaceLevel kb spaceId path = .ok ⟨path ++ [spaceTarget space], some space.visibility, none⟩ := by
  simp [spaceLevel, h]

/-- One turn of the loop, on a page of the space and the category that the loop has seen so far. -/
theorem climbPages_turn {pages : Table Page.id} {id x : String} {page : Page} {spaceId : String}
    {categoryId : Option String} {left : Nat} {climb : Climb} (hfind : pages.find x = some page)
    (hspace : page.spaceId = spaceId) (hcategory : page.categoryId = categoryId) (hfresh : x ∉ climb.visited)
    (hstate : climb.visited = [] ∧ climb.spaceId = none ∧ climb.categoryId = none ∨
      climb.spaceId = some spaceId ∧ climb.categoryId = categoryId) :
    climbPages pages id (left + 1) climb (some x) =
      climbPages pages id left ⟨x :: climb.visited, climb.path ++ [pageTarget page], categoryId, some spaceId⟩
        page.parentId := by
  subst hspace hcategory
  have hor : climb.categoryId.or page.categoryId = page.categoryId := by
    rcases hstate with ⟨-, -, hc⟩ | ⟨-, hc⟩
    · rw [hc, Option.none_or]
    · rw [hc, Option.or_self]
  have hspaces : ¬climb.spaceId.any (fun s => decide (s ≠ page.spaceId)) = true := by
    rcases hstate with ⟨-, hs, -⟩ | ⟨hs, -⟩ <;> simp [hs]
  have hcategories : ¬(climb.visited ≠ [] ∧ page.categoryId ≠ climb.categoryId) := by
    rcases hstate with ⟨hv, -, -⟩ | ⟨-, hc⟩
    · exact fun h => h.1 hv
    · exact fun h => h.2 hc.symm
  rw [climbPages, if_neg (by simpa using hfresh), hfind]
  simp only [if_neg hspaces, if_neg hcategories, hor]

/-- The loop walks a chain that stays in one space and one category, as long as pages are left. -/
theorem climbPages_ok {pages : Table Page.id} {id x : String} {l : List Page} {spaceId : String}
    {categoryId : Option String} {left : Nat} {climb : Climb} (hchain : PageChain pages x l) (hleft : l.length ≤ left)
    (hline : ∀ a ∈ l, a.spaceId = spaceId ∧ a.categoryId = categoryId) (hnodup : (l.map Page.id).Nodup)
    (hvisited : ∀ a ∈ l, a.id ∉ climb.visited)
    (hstate : climb.visited = [] ∧ climb.spaceId = none ∧ climb.categoryId = none ∨
      climb.spaceId = some spaceId ∧ climb.categoryId = categoryId) :
    ∃ visited, climbPages pages id left climb (some x) = .ok ⟨visited, climb.path ++ l.map pageTarget, categoryId,
      some spaceId⟩ := by
  induction hchain generalizing left climb with
  | @root x page hfind hroot =>
    cases left with
    | zero => simp at hleft
    | succ left =>
      obtain ⟨hspace, hcategory⟩ := hline page List.mem_cons_self
      have hfresh : x ∉ climb.visited := find_id hfind ▸ hvisited page List.mem_cons_self
      rw [climbPages_turn hfind hspace hcategory hfresh hstate, hroot]
      cases left <;> exact ⟨_, rfl⟩
  | @child x page parent tl hfind hchild htl ih =>
    cases left with
    | zero => simp at hleft
    | succ left =>
      obtain ⟨hspace, hcategory⟩ := hline page List.mem_cons_self
      have hfresh : x ∉ climb.visited := find_id hfind ▸ hvisited page List.mem_cons_self
      obtain ⟨hnot, htlnodup⟩ := List.nodup_cons.mp hnodup
      rw [climbPages_turn hfind hspace hcategory hfresh hstate, hchild]
      have hvisited' : ∀ a ∈ tl, a.id ∉ x :: climb.visited := by
        intro a ha hmem
        rcases List.mem_cons.mp hmem with hax | hmem
        · exact hnot (List.mem_map.mpr ⟨a, ha, hax.trans (find_id hfind).symm⟩)
        · exact hvisited a (List.mem_cons_of_mem _ ha) hmem
      have hrest : ∃ visited, climbPages pages id left
          ⟨x :: climb.visited, climb.path ++ [pageTarget page], categoryId, some spaceId⟩ (some parent) =
            .ok ⟨visited, climb.path ++ [pageTarget page] ++ tl.map pageTarget, categoryId, some spaceId⟩ :=
        ih (by simpa using hleft) (fun a ha => hline a (List.mem_cons_of_mem _ ha)) htlnodup hvisited'
          (Or.inr ⟨rfl, rfl⟩)
      obtain ⟨visited, h⟩ := hrest
      refine ⟨visited, h.trans ?_⟩
      simp

theorem pageHierarchy_ok {id : String} {page : Page} {l : List Page} {space : KnowledgeSpace}
    (hfind : kb.pages.find id = some page) (hl : PageLine kb page l) (hspace : kb.spaces.find page.spaceId = some space) :
    pageHierarchy kb id =
      .ok ⟨l.map pageTarget ++ categoryTargets kb page.categoryId .pages ++ [spaceTarget space], some space.visibility,
        none⟩ := by
  have hchain : PageChain kb.pages id l := find_id hfind ▸ hl.chain
  have hwalk : ∃ visited, climbPages kb.pages id 100 ⟨[], [], none, none⟩ (some id) =
      .ok ⟨visited, [] ++ l.map pageTarget, page.categoryId, some page.spaceId⟩ :=
    climbPages_ok hchain hl.length hl.line hl.nodup (fun _ _ => List.not_mem_nil) (Or.inl ⟨rfl, rfl, rfl⟩)
  obtain ⟨visited, hclimb⟩ := hwalk
  rw [pageHierarchy, hclimb]
  show (do
    let category ← categoryLevel kb page.categoryId page.spaceId .pages
      "Wiki-Kategorie und Bereich stimmen nicht überein."
    spaceLevel kb page.spaceId ([] ++ l.map pageTarget ++ category)) = _
  rw [categoryLevel_ok hl.category]
  show spaceLevel kb page.spaceId _ = _
  rw [spaceLevel_ok hspace, List.nil_append]

/-- The single pipeline computes the hierarchy of a well-formed target. -/
theorem resolveHierarchy_ok (order : RowOrder) {type : TargetType} {id : String} (h : WellFormed kb type id) :
    ∃ r, resolveHierarchy order kb type id = .ok r ∧ IsHierarchy kb type id r := by
  obtain ⟨r, hr⟩ := h
  cases hr with
  | space hfind =>
    refine ⟨_, ?_, .space hfind⟩
    simp [resolveHierarchy, spaceHierarchy, spaceLevel, hfind]
  | category hfind hspace =>
    refine ⟨_, ?_, .category hfind hspace⟩
    simp only [resolveHierarchy, categoryHierarchy, hfind, hspace]
    rfl
  | page hfind hl hspace => exact ⟨_, pageHierarchy_ok hfind hl hspace, .page hfind hl hspace⟩
  | personalNote hfind hnone hshares =>
    refine ⟨_, ?_, .personalNote hfind hnone (order.perm _)⟩
    simp only [resolveHierarchy, noteHierarchy, hfind, hnone]
    rfl
  | note hfind hsome hspace hcategory =>
    refine ⟨_, ?_, .note hfind hsome hspace hcategory⟩
    simp only [resolveHierarchy, noteHierarchy, hfind, hsome, categoryLevel_ok hcategory]
    exact spaceLevel_ok hspace
  | standard hfind hspace hcategory =>
    refine ⟨_, ?_, .standard hfind hspace hcategory⟩
    simp only [resolveHierarchy, standardHierarchy, hfind, categoryLevel_ok hcategory]
    exact spaceLevel_ok hspace

/-! ## Many targets -/

/-- What a result of the batched pipeline says: entries for the rows, each of them right. -/
structure Collected {α : Type} (id : α → String) (P : String → ResolvedTargetHierarchy → Prop) (rows : List α)
    (start m : Hierarchies) : Prop where
  right : ∀ x h, m.get? x = some h → (P x h ∧ ∃ row ∈ rows, id row = x) ∨ start.get? x = some h
  entry : ∀ row ∈ rows, (m.get? (id row)).isSome
  kept : ∀ x, (start.get? x).isSome → (m.get? x).isSome

/-- One row of `collect`. -/
def collectRow {α : Type} (id : α → String) (hierarchy : α → Except HttpError (Option ResolvedTargetHierarchy))
    (result : Hierarchies) (row : α) : Except HttpError Hierarchies := do
  match ← hierarchy row with
  | some h => pure (result.set (id row) h)
  | none => pure result

theorem collect_ok {α : Type} {id : α → String} {hierarchy : α → Except HttpError (Option ResolvedTargetHierarchy)}
    {P : String → ResolvedTargetHierarchy → Prop} {rows : List α}
    (hrows : ∀ row ∈ rows, ∃ h, hierarchy row = .ok (some h) ∧ P (id row) h) :
    ∃ m, collect id hierarchy rows = .ok m ∧ (∀ x h, m.get? x = some h → P x h ∧ ∃ row ∈ rows, id row = x) ∧
      ∀ row ∈ rows, (m.get? (id row)).isSome := by
  have hfold : ∀ (rows : List α) (start : Hierarchies),
      (∀ row ∈ rows, ∃ h, hierarchy row = .ok (some h) ∧ P (id row) h) →
        ∃ m, rows.foldlM (collectRow id hierarchy) start = Except.ok m ∧ Collected id P rows start m := by
    intro rows
    induction rows with
    | nil => exact fun start _ => ⟨start, rfl, ⟨fun x h hx => Or.inr hx, by simp, fun _ hx => hx⟩⟩
    | cons row rows ih =>
      intro start hrows
      obtain ⟨h, hrow, hP⟩ := hrows row List.mem_cons_self
      obtain ⟨m, hm, hright, hentry, hkept⟩ := ih (start.set (id row) h) fun r hr => hrows r (List.mem_cons_of_mem _ hr)
      refine ⟨m, ?_, ⟨fun x g hx => ?_, fun r hr => ?_, fun x hx => hkept x ?_⟩⟩
      · rw [List.foldlM_cons, collectRow, hrow]
        exact hm
      · rcases hright x g hx with ⟨hPx, r, hr, hid⟩ | hstart
        · exact Or.inl ⟨hPx, r, List.mem_cons_of_mem _ hr, hid⟩
        · rw [OrderedMap.get?_set] at hstart
          split at hstart
          · next hid =>
            cases hstart
            exact Or.inl ⟨hid ▸ hP, row, List.mem_cons_self, hid.symm⟩
          · exact Or.inr hstart
      · rcases List.mem_cons.mp hr with rfl | hr
        · exact hkept _ (by rw [OrderedMap.get?_set, if_pos rfl]; rfl)
        · exact hentry r hr
      · rw [OrderedMap.get?_set]
        split
        · rfl
        · exact hx
  obtain ⟨m, hm, hcollected⟩ := hfold rows OrderedMap.empty hrows
  refine ⟨m, hm, fun x h hx => ?_, hcollected.entry⟩
  rcases hcollected.right x h hx with hright | hempty
  · exact hright
  · cases hempty

/-- `collect` over rows that have exactly the given ids. -/
theorem collect_ids_ok {α : Type} {id : α → String} {hierarchy : α → Except HttpError (Option ResolvedTargetHierarchy)}
    {P : String → ResolvedTargetHierarchy → Prop} {rows : List α} {ids : List String} (hmem : ∀ row ∈ rows, id row ∈ ids)
    (hall : ∀ x ∈ ids, ∃ row ∈ rows, id row = x)
    (hrows : ∀ row ∈ rows, ∃ h, hierarchy row = .ok (some h) ∧ P (id row) h) :
    ∃ m, collect id hierarchy rows = .ok m ∧ (∀ x h, m.get? x = some h → P x h ∧ x ∈ ids) ∧
      ∀ x ∈ ids, (m.get? x).isSome := by
  obtain ⟨m, hm, hright, hentry⟩ := collect_ok hrows
  refine ⟨m, hm, fun x h hx => ?_, fun x hx => ?_⟩
  · obtain ⟨hP, row, hrow, rfl⟩ := hright x h hx
    exact ⟨hP, hmem row hrow⟩
  · obtain ⟨row, hrow, rfl⟩ := hall x hx
    exact hentry row hrow

/-- The loop over the parents of a candidate walks its chain. -/
theorem climbCandidate_ok {pages : Table Page.id} {pagesById : OrderedMap String Page} {candidate current : Page}
    {x : String} {l : List Page} {left : Nat} {visited : List String} {path : List ResolvedResourceTarget}
    (hchain : PageChain pages x l) (hcurrent : pages.find x = some current) (hleft : l.length ≤ left)
    (hline : ∀ a ∈ l, a.spaceId = candidate.spaceId ∧ a.categoryId = candidate.categoryId)
    (hnodup : (l.map Page.id).Nodup) (hvisited : ∀ a ∈ l, a.id ∉ visited)
    (hfound : ∀ a ∈ l, pagesById.get? a.id = some a) :
    climbCandidate pagesById candidate left visited path current = .ok (path ++ l.map pageTarget) := by
  induction hchain generalizing left visited path current with
  | @root x page hfind hroot =>
    obtain rfl : page = current := Option.some.inj (hfind.symm.trans hcurrent)
    cases left with
    | zero => simp at hleft
    | succ left =>
      obtain ⟨hspace, hcategory⟩ := hline page List.mem_cons_self
      have hfresh : ¬visited.contains page.id = true := by simpa using hvisited page List.mem_cons_self
      have hsame : ¬(page.spaceId ≠ candidate.spaceId ∨ page.categoryId ≠ candidate.categoryId) := by
        simp [hspace, hcategory]
      rw [climbCandidate, if_neg hfresh, if_neg hsame, hroot]
      rfl
  | @child x page parent tl hfind hchild htl ih =>
    obtain rfl : page = current := Option.some.inj (hfind.symm.trans hcurrent)
    cases left with
    | zero => simp at hleft
    | succ left =>
      obtain ⟨hspace, hcategory⟩ := hline page List.mem_cons_self
      have hfresh : ¬visited.contains page.id = true := by simpa using hvisited page List.mem_cons_self
      have hsame : ¬(page.spaceId ≠ candidate.spaceId ∨ page.categoryId ≠ candidate.categoryId) := by
        simp [hspace, hcategory]
      obtain ⟨hnot, htlnodup⟩ := List.nodup_cons.mp hnodup
      obtain ⟨next, rest, hnext, rfl⟩ := htl.head
      have hget : pagesById.get? parent = some next := by
        rw [← find_id hnext]
        exact hfound next (List.mem_cons_of_mem _ List.mem_cons_self)
      have hvisited' : ∀ a ∈ next :: rest, a.id ∉ page.id :: visited := by
        intro a ha hmem
        rcases List.mem_cons.mp hmem with hax | hmem
        · exact hnot (List.mem_map.mpr ⟨a, ha, hax⟩)
        · exact hvisited a (List.mem_cons_of_mem _ ha) hmem
      rw [climbCandidate, if_neg hfresh, if_neg hsame, hchild]
      simp only [hget]
      rw [ih hnext (by simpa using hleft) (fun a ha => hline a (List.mem_cons_of_mem _ ha)) htlnodup hvisited'
        fun a ha => hfound a (List.mem_cons_of_mem _ ha)]
      simp

/-- A row of a chain is found by its id. -/
theorem find_of_mem_chain {pages : Table Page.id} {x : String} {l : List Page} {a : Page} (h : PageChain pages x l)
    (ha : a ∈ l) : pages.find a.id = some a := by
  obtain ⟨_, _, -, -, hfind⟩ := h.split (fun hrow => find_id hrow) ha
  exact hfind

/-- A candidate with its chain, its category and its space in the maps. -/
theorem candidateHierarchy_ok {page : Page} {l : List Page} {space : KnowledgeSpace}
    {pagesById : OrderedMap String Page} {categoriesById : OrderedMap String Category}
    {spacesById : OrderedMap String KnowledgeSpace} (hfind : kb.pages.find page.id = some page) (hl : PageLine kb page l)
    (hpages : ∀ a ∈ l, pagesById.get? a.id = some a)
    (hcategories : ∀ id category, page.categoryId = some id → kb.categories.find id = some category →
      categoriesById.get? id = some category)
    (hspaces : spacesById.get? page.spaceId = some space) :
    candidateHierarchy pagesById categoriesById spacesById page =
      .ok (some ⟨l.map pageTarget ++ categoryTargets kb page.categoryId .pages ++ [spaceTarget space],
        some space.visibility, none⟩) := by
  have hclimb : climbCandidate pagesById page 100 [] [] page = .ok ([] ++ l.map pageTarget) :=
    climbCandidate_ok hl.chain hfind hl.length hl.line hl.nodup (fun _ _ => List.not_mem_nil) hpages
  unfold candidateHierarchy
  rw [hclimb, hspaces]
  cases hcategoryId : page.categoryId with
  | none => simp [categoryTargets, bind, Except.bind, pure, Except.pure]
  | some categoryId =>
    obtain ⟨category, hcategory, hin⟩ := hl.category categoryId hcategoryId
    simp [categoryTargets, hcategories categoryId category hcategoryId hcategory, hcategory, hin, bind, Except.bind,
      pure, Except.pure]

/-- A row that a query by id lists is found in the map of its result. -/
theorem get?_index_ids {α : Type} {key : α → String} {t : Table key} {ids : List String} {x : String} {a : α}
    (h : t.find x = some a) (hx : x ∈ ids) :
    (Table.index key (t.findMany order fun row => ids.contains (key row))).get? x = some a := by
  rw [Table.get?_index, h, Option.filter_some, if_pos]
  rw [List.contains_iff_mem, (Table.find_eq_some.mp h).2]
  exact hx

/-- The batched pipeline for pages computes the hierarchies of well-formed pages. -/
theorem pageHierarchies_ok (order : RowOrder) {ids : List String} (h : ∀ id ∈ ids, WellFormed kb .page id) :
    ∃ m, pageHierarchies order kb ids = .ok m ∧ (∀ x r, m.get? x = some r → IsHierarchy kb .page x r ∧ x ∈ ids) ∧
      ∀ id ∈ ids, (m.get? id).isSome := by
  unfold pageHierarchies
  have hcandidate : ∀ page, page ∈ kb.pages.findMany order (fun page => ids.contains page.id) ↔
      page ∈ kb.pages ∧ page.id ∈ ids := by
    intro page
    rw [Table.mem_findMany, List.contains_iff_mem]
  generalize kb.pages.findMany order (fun page => ids.contains page.id) = candidates at hcandidate
  have hexists : ∀ id ∈ ids, ∃ page ∈ candidates, page.id = id := by
    rintro id hid
    obtain ⟨r, hr⟩ := h id hid
    cases hr with
    | page hfind hl hspace =>
      obtain ⟨hmem, rfl⟩ := Table.find_eq_some.mp hfind
      exact ⟨_, (hcandidate _).mpr ⟨hmem, hid⟩, rfl⟩
  simp only
  split
  · next hempty =>
    refine ⟨OrderedMap.empty, rfl, fun x r hx => (by cases hx), fun id hid => ?_⟩
    obtain ⟨page, hmem, -⟩ := hexists id hid
    rw [hempty] at hmem
    exact absurd hmem List.not_mem_nil
  · refine collect_ids_ok (fun page hpage => ((hcandidate page).mp hpage).2) hexists fun page hpage => ?_
    obtain ⟨hmem, hid⟩ := (hcandidate page).mp hpage
    have hself : kb.pages.find page.id = some page := Table.find_of_mem hmem
    obtain ⟨r, hr⟩ := h page.id hid
    cases hr with
    | @page _ page' l space hfind hl hspace =>
      have hsame : page = page' := Option.some.inj (hself.symm.trans hfind)
      subst hsame
      have hspaceId : page.spaceId ∈ Js.distinct (candidates.map Page.spaceId) :=
        Js.mem_distinct.mpr (List.mem_map_of_mem hpage)
      refine ⟨_, candidateHierarchy_ok hself hl (fun a ha => ?_) (fun c category hc hcategory => ?_) ?_,
        .page hfind hl hspace⟩
      · rw [Table.get?_index, find_of_mem_chain hl.chain ha, Option.filter_some, if_pos]
        rw [List.contains_iff_mem, (hl.line a ha).1]
        exact hspaceId
      · exact get?_index_ids hcategory (Js.mem_distinct.mpr (List.mem_filterMap.mpr ⟨page, hpage, hc⟩))
      · exact get?_index_ids hspace hspaceId

/-- The batched pipeline for the other types, whose rows are looked up one by one. -/
theorem collect_rows_ok {α : Type} {key : α → String} {t : Table key} {type : TargetType} {ids : List String}
    {hierarchy : α → Except HttpError (Option ResolvedTargetHierarchy)}
    (hfind : ∀ id ∈ ids, ∃ row r, t.find id = some row ∧ hierarchy row = .ok (some r) ∧ IsHierarchy kb type id r) :
    ∃ m, collect key hierarchy (t.findMany order fun row => ids.contains (key row)) = .ok m ∧
      (∀ x r, m.get? x = some r → IsHierarchy kb type x r ∧ x ∈ ids) ∧ ∀ id ∈ ids, (m.get? id).isSome := by
  refine collect_ids_ok (fun row hrow => List.contains_iff_mem.mp (Table.mem_findMany.mp hrow).2) (fun id hid => ?_)
    fun row hrow => ?_
  · obtain ⟨row, r, hrow, -, -⟩ := hfind id hid
    obtain ⟨hmem, rfl⟩ := Table.find_eq_some.mp hrow
    exact ⟨row, Table.mem_findMany.mpr ⟨hmem, List.contains_iff_mem.mpr hid⟩, rfl⟩
  · obtain ⟨hmem, hid⟩ := Table.mem_findMany.mp hrow
    obtain ⟨row', r, hrow', hr, hhierarchy⟩ := hfind (key row) (List.contains_iff_mem.mp hid)
    have hsame : row = row' := Option.some.inj ((Table.find_of_mem hmem).symm.trans hrow')
    subst hsame
    exact ⟨r, hr, hhierarchy⟩

/-- The batched pipeline computes the hierarchies of well-formed targets, for every id of the batch. -/
theorem resolveHierarchies_ok (order : RowOrder) {type : TargetType} {ids : List String}
    (h : ∀ id ∈ ids, WellFormed kb type id) :
    ∃ m, resolveHierarchies order kb type ids = .ok m ∧ (∀ x r, m.get? x = some r → IsHierarchy kb type x r ∧ x ∈ ids) ∧
      ∀ id ∈ ids, (m.get? id).isSome := by
  have hunique : ∃ m, resolveHierarchies order kb type ids = .ok m ∧
      (∀ x r, m.get? x = some r → IsHierarchy kb type x r ∧ x ∈ Js.distinct ids) ∧
        ∀ id ∈ Js.distinct ids, (m.get? id).isSome := by
    have h' : ∀ id ∈ Js.distinct ids, WellFormed kb type id := fun id hid => h id (Js.mem_distinct.mp hid)
    unfold resolveHierarchies
    simp only
    split
    · next hempty =>
      refine ⟨OrderedMap.empty, rfl, fun x r hx => (by cases hx), fun id hid => ?_⟩
      rw [hempty] at hid
      exact absurd hid List.not_mem_nil
    · cases type with
      | page => exact pageHierarchies_ok order h'
      | space =>
        refine collect_rows_ok fun id hid => ?_
        obtain ⟨r, hr⟩ := h' id hid
        cases hr with
        | space hfind => exact ⟨_, _, hfind, rfl, .space hfind⟩
      | category =>
        refine collect_rows_ok fun id hid => ?_
        obtain ⟨r, hr⟩ := h' id hid
        cases hr with
        | category hfind hspace =>
          refine ⟨_, _, hfind, ?_, .category hfind hspace⟩
          simp only [hspace]
          rfl
      | note =>
        refine collect_rows_ok fun id hid => ?_
        obtain ⟨r, hr⟩ := h' id hid
        cases hr with
        | personalNote hfind hnone hshares =>
          refine ⟨_, _, hfind, ?_, .personalNote hfind hnone (order.perm _)⟩
          simp only [hnone]
          rfl
        | @note _ note spaceId space hfind hsome hspace hcategory =>
          refine ⟨_, _, hfind, ?_, .note hfind hsome hspace hcategory⟩
          cases hnone : note.categoryId with
          | none => simp [hsome, hspace, categoryTargets]
          | some categoryId =>
            obtain ⟨category, hfound, hin⟩ := hcategory categoryId hnone
            have hid : space.id = spaceId := (Table.find_eq_some.mp hspace).2
            simp [hsome, hspace, hfound, hin, hid, categoryTargets]
      | standard =>
        refine collect_rows_ok fun id hid => ?_
        obtain ⟨r, hr⟩ := h' id hid
        cases hr with
        | @standard _ standard space hfind hspace hcategory =>
          refine ⟨_, _, hfind, ?_, .standard hfind hspace hcategory⟩
          cases hnone : standard.categoryId with
          | none => simp [hspace, required, categoryTargets, bind, Except.bind, pure, Except.pure]
          | some categoryId =>
            obtain ⟨category, hfound, hin⟩ := hcategory categoryId hnone
            have hid : space.id = standard.spaceId := (Table.find_eq_some.mp hspace).2
            simp [hspace, required, hfound, hin, hid, categoryTargets, bind, Except.bind, pure, Except.pure]
  obtain ⟨m, hm, hright, hentry⟩ := hunique
  refine ⟨m, hm, fun x r hx => ⟨(hright x r hx).1, Js.mem_distinct.mp (hright x r hx).2⟩, fun id hid => ?_⟩
  exact hentry id (Js.mem_distinct.mpr hid)

end AdWiki.Access
