import AdWiki.Access.Hierarchy
import AdWiki.Lib.Runs
import AdWiki.Wiki.PagesService

/-!
# The tree of pages

Every page row has a well-formed chain of parents (`TreeIntact`) as long as no update makes a page an ancestor of itself,
none makes a chain longer than 100 pages, and none gives a page with rows under it another category or space
(`KeepsTree`). The condition is exact: a call that breaks it breaks the tree (`step_intact`).

* `TreeInv`: what a page row says about its parent, its category and its space; the invariant of the runs.
* `TreeInv.kept`: calls by which rows lose their parent, or all rows of a category their category.
* `TreeInv.update_iff`: the update of one row.
-/

namespace AdWiki.Wiki

open Access Fallible Ancestors

variable {kb kb' : KnowledgeBase} {st st' : WikiState} {order : RowOrder} {slugify : String → String} {pageId : String}

/-- Every page has a well-formed chain of ancestors in a space that exists, and the hierarchies of existing pages are
always found. -/
structure TreeIntact (kb : KnowledgeBase) : Prop where
  line : ∀ page ∈ kb.pages, ∃ l, PageLine kb page l
  space : ∀ page ∈ kb.pages, ∃ space, kb.spaces.find page.spaceId = some space
  resolves : ∀ order ids, (∀ id ∈ ids, (kb.pages.find id).isSome) → ∃ m, pageHierarchies order kb ids = .ok m

/-! ## The invariant -/

/-- The parent of a page is a row of the same space and category, chains end after at most 100 pages, and the category
and the space exist. -/
structure TreeInv (kb : KnowledgeBase) : Prop where
  edge : ∀ a ∈ kb.pages, ∀ y, a.parentId = some y →
    ∃ b, kb.pages.find y = some b ∧ b.spaceId = a.spaceId ∧ b.categoryId = a.categoryId
  chain : ∀ a ∈ kb.pages, ∃ l, PageChain kb.pages a.id l ∧ l.length ≤ 100
  category : ∀ a ∈ kb.pages, CategoryIn kb a.categoryId a.spaceId
  space : ∀ a ∈ kb.pages, ∃ space, kb.spaces.find a.spaceId = some space

theorem TreeInv.line (h : TreeInv kb) {page : Page} (hpage : page ∈ kb.pages) : ∃ l, PageLine kb page l := by
  obtain ⟨l, hl, hlength⟩ := h.chain page hpage
  refine ⟨l, hl, hl.nodup fun hrow => find_id hrow, hlength, ?_, h.category page hpage⟩
  have hself : kb.pages.find page.id = some page := Table.find_of_mem hpage
  have hline : ∀ a ∈ l, a ∈ kb.pages ∧ a.spaceId = page.spaceId ∧ a.categoryId = page.categoryId := by
    refine hl.forall (fun {a b y} ha hparent hb => ?_) hself ⟨hpage, rfl, rfl⟩
    obtain ⟨hmem, hspace, hcategory⟩ := ha
    obtain ⟨b', hb', hs, hc⟩ := h.edge a hmem y hparent
    obtain rfl : b = b' := Option.some.inj (hb.symm.trans hb')
    exact ⟨(Table.find_eq_some.mp hb).1, hs.trans hspace, hc.trans hcategory⟩
  exact fun a ha => (hline a ha).2

theorem TreeInv.wellFormed (h : TreeInv kb) (hid : (kb.pages.find pageId).isSome) : WellFormed kb .page pageId := by
  obtain ⟨page, hfind⟩ := Option.isSome_iff_exists.mp hid
  obtain ⟨hmem, -⟩ := Table.find_eq_some.mp hfind
  obtain ⟨l, hl⟩ := h.line hmem
  obtain ⟨space, hspace⟩ := h.space page hmem
  exact ⟨_, .page hfind hl hspace⟩

/-- The invariant says no more and no less than that the tree is intact. -/
theorem treeIntact_iff : TreeIntact kb ↔ TreeInv kb := by
  constructor
  · intro h
    refine ⟨fun a ha y hy => ?_, fun a ha => ?_, fun a ha => ?_, h.space⟩
    · obtain ⟨l, hl⟩ := h.line a ha
      have hself : kb.pages.find a.id = some a := Table.find_of_mem ha
      cases hl.chain with
      | root hrow hroot =>
        obtain rfl := Option.some.inj (hself.symm.trans hrow)
        rw [hy] at hroot
        cases hroot
      | child hrow hchild htl =>
        obtain rfl := Option.some.inj (hself.symm.trans hrow)
        obtain rfl := Option.some.inj (hy.symm.trans hchild)
        obtain ⟨b, tl, hb, rfl⟩ := htl.head
        obtain ⟨hspace, hcategory⟩ := hl.line b (by simp)
        exact ⟨b, hb, hspace, hcategory⟩
    · obtain ⟨l, hl⟩ := h.line a ha
      exact ⟨l, hl.chain, hl.length⟩
    · obtain ⟨l, hl⟩ := h.line a ha
      exact hl.category
  · intro h
    refine ⟨fun page hpage => h.line hpage, h.space, fun order ids hids => ?_⟩
    obtain ⟨m, hm, -⟩ := pageHierarchies_ok order fun id hid => h.wellFormed (hids id hid)
    exact ⟨m, hm⟩

/-- A chain of a row. -/
theorem TreeInv.chain_find (h : TreeInv kb) {a : Page} {x : String} (hx : kb.pages.find x = some a) :
    ∃ l, PageChain kb.pages x l ∧ l.length ≤ 100 := by
  obtain ⟨hmem, rfl⟩ := Table.find_eq_some.mp hx
  exact h.chain a hmem

/-! ## Rows that lose their parent or their category -/

/-- The rows of `kb'` are rows of `kb` with the category changed by `κ`, and with their parent or without one. -/
structure Kept (κ : Option String → Option String) (kb kb' : KnowledgeBase) : Prop where
  row : ∀ a' ∈ kb'.pages, ∃ a ∈ kb.pages, a'.id = a.id ∧ a'.spaceId = a.spaceId ∧ a'.categoryId = κ a.categoryId ∧
    (a'.parentId = none ∨ a'.parentId = a.parentId)
  parent : ∀ a' ∈ kb'.pages, ∀ y, a'.parentId = some y → (kb.pages.find y).isSome → (kb'.pages.find y).isSome
  category : ∀ a ∈ kb.pages, CategoryIn kb a.categoryId a.spaceId → CategoryIn kb' (κ a.categoryId) a.spaceId
  spaces : kb'.spaces = kb.spaces

theorem Kept.find {κ : Option String → Option String} (h : Kept κ kb kb') {x : String} {a' : Page}
    (hx : kb'.pages.find x = some a') : ∃ a, kb.pages.find x = some a ∧ a'.spaceId = a.spaceId ∧
      a'.categoryId = κ a.categoryId ∧ (a'.parentId = none ∨ a'.parentId = a.parentId) := by
  obtain ⟨hmem, rfl⟩ := Table.find_eq_some.mp hx
  obtain ⟨a, ha, hid, hspace, hcategory, hparent⟩ := h.row a' hmem
  exact ⟨a, Table.find_eq_some.mpr ⟨ha, hid.symm⟩, hspace, hcategory, hparent⟩

theorem TreeInv.kept {κ : Option String → Option String} (h : TreeInv kb) (hk : Kept κ kb kb') : TreeInv kb' := by
  refine ⟨fun a' ha' y hy => ?_, fun a' ha' => ?_, fun a' ha' => ?_, fun a' ha' => ?_⟩
  · obtain ⟨a, ha, hid, hspace, hcategory, hparent⟩ := hk.row a' ha'
    have hya : a.parentId = some y := by
      rcases hparent with hnone | hsame
      · rw [hnone] at hy
        cases hy
      · rw [← hsame, hy]
    obtain ⟨b, hb, hbs, hbc⟩ := h.edge a ha y hya
    obtain ⟨b', hb'⟩ := Option.isSome_iff_exists.mp (hk.parent a' ha' y hy (by rw [hb]; rfl))
    obtain ⟨b₀, hb₀, hs, hc, -⟩ := hk.find hb'
    obtain rfl : b = b₀ := Option.some.inj (hb.symm.trans hb₀)
    exact ⟨b', hb', by rw [hs, hbs, hspace], by rw [hc, hbc, hcategory]⟩
  · obtain ⟨a, ha, hid, -⟩ := hk.row a' ha'
    obtain ⟨l, hl, hlength⟩ := h.chain a ha
    have hkeeps : Keeps kb.pages.find kb'.pages.find Page.parentId fun x => (kb'.pages.find x).isSome := by
      intro x b hx hb
      obtain ⟨b', hb'⟩ := Option.isSome_iff_exists.mp hx
      obtain ⟨b₀, hb₀, -, -, hparent⟩ := hk.find hb'
      obtain rfl : b = b₀ := Option.some.inj (hb.symm.trans hb₀)
      refine ⟨b', hb', ?_⟩
      cases hy : b'.parentId with
      | none => exact Or.inl rfl
      | some y =>
        have hyb : b.parentId = some y := by
          rcases hparent with hnone | hsame
          · rw [hnone] at hy
            cases hy
          · rw [← hsame, hy]
        obtain ⟨c, hc, -, -⟩ := h.edge b (Table.find_eq_some.mp hb).1 y hyb
        exact Or.inr ⟨y, rfl, hyb, hk.parent b' (Table.find_eq_some.mp hb').1 y hy (by rw [hc]; rfl)⟩
    have hself : (kb'.pages.find a.id).isSome := by rw [← hid, Table.find_of_mem ha']; rfl
    obtain ⟨l', hl', hle⟩ := hl.keep hkeeps hself
    exact ⟨l', hid ▸ hl', hle.trans hlength⟩
  · obtain ⟨a, ha, -, hspace, hcategory, -⟩ := hk.row a' ha'
    rw [hspace, hcategory]
    exact hk.category a ha (h.category a ha)
  · obtain ⟨a, ha, -, hspace, -⟩ := hk.row a' ha'
    rw [hspace, hk.spaces]
    exact h.space a ha

/-! ## Calls that keep the tree -/

theorem setPages_kb {pages : Table Page.id} : (st.setPages pages).kb = { st.kb with pages := pages } := rfl

/-- Rows that keep their place, with another row of the same page in it. -/
theorem kept_updateMany {pages : Table Page.id} {p : Page → Bool} {f : Page → Page} {hf : ∀ r, (f r).id = r.id}
    (hplace : ∀ r, (f r).spaceId = r.spaceId ∧ (f r).categoryId = r.categoryId ∧
      ((f r).parentId = none ∨ (f r).parentId = r.parentId)) :
    Kept id { kb with pages := pages } { kb with pages := pages.updateMany p f hf } := by
  refine ⟨fun a' ha' => ?_, fun a' _ y _ hy => ?_, fun a _ h => h, rfl⟩
  · have hmem : a' ∈ pages.updateMany p f hf := ha'
    obtain ⟨a, ha, rfl⟩ := Table.mem_updateMany.mp hmem
    refine ⟨a, ha, ?_⟩
    split
    · obtain ⟨hspace, hcategory, hparent⟩ := hplace a
      exact ⟨hf a, hspace, hcategory, hparent⟩
    · exact ⟨rfl, rfl, rfl, Or.inr rfl⟩
  · show ((pages.updateMany p f hf).find y).isSome
    rw [Table.find_updateMany, Option.isSome_map]
    exact hy

theorem TreeInv.updateMany {pages : Table Page.id} {p : Page → Bool} {f : Page → Page} {hf : ∀ r, (f r).id = r.id}
    (h : TreeInv { kb with pages := pages }) (hplace : ∀ r, (f r).spaceId = r.spaceId ∧
      (f r).categoryId = r.categoryId ∧ ((f r).parentId = none ∨ (f r).parentId = r.parentId)) :
    TreeInv { kb with pages := pages.updateMany p f hf } :=
  h.kept (kept_updateMany hplace)

theorem TreeInv.remove {deletedById : String} {now : Time} {actor : Option AuthenticatedUser} (h : TreeInv st.kb)
    (hok : st.remove order pageId deletedById now actor = .ok st') : TreeInv st'.kb := by
  unfold WikiState.remove at hok
  split at hok
  · cases hok
  · next existing hfound =>
    obtain ⟨_, -, hok⟩ := bind_eq_ok.mp hok
    obtain ⟨_, -, hok⟩ := bind_eq_ok.mp hok
    obtain ⟨-, hok⟩ := throwIf_bind_eq_ok.mp hok
    cases pure_eq_ok.mp hok
    rw [setPages_kb]
    refine TreeInv.updateMany ?_ fun r => ⟨rfl, rfl, Or.inr rfl⟩
    split
    · exact TreeInv.updateMany h fun r => ⟨rfl, rfl, Or.inl rfl⟩
    · exact h

theorem TreeInv.restore {actor : Option AuthenticatedUser} (h : TreeInv st.kb)
    (hok : st.restore order pageId actor = .ok st') : TreeInv st'.kb := by
  unfold WikiState.restore at hok
  split at hok
  · cases hok
  · obtain ⟨_, -, hok⟩ := bind_eq_ok.mp hok
    cases pure_eq_ok.mp hok
    exact TreeInv.updateMany h fun r => ⟨rfl, rfl, Or.inr rfl⟩

theorem mem_withoutPage {pages : Table Page.id} {a' : Page} : a' ∈ WikiState.withoutPage pages pageId ↔
    ∃ a ∈ pages, a.id ≠ pageId ∧ a' = if a.parentId = some pageId then { a with parentId := none } else a := by
  unfold WikiState.withoutPage
  rw [Table.mem_updateMany]
  simp only [Table.mem_deleteMany, beq_eq_false_iff_ne, beq_iff_eq, and_assoc]

theorem find_withoutPage {pages : Table Page.id} {x : String} (hne : x ≠ pageId) :
    ((WikiState.withoutPage pages pageId).find x).isSome = (pages.find x).isSome := by
  unfold WikiState.withoutPage
  rw [Table.find_updateMany, Option.isSome_map, Table.find_deleteMany]
  cases h : pages.find x with
  | none => rfl
  | some b =>
    rw [Option.filter_some, if_pos]
    simpa [(Table.find_eq_some.mp h).2] using hne

/-- The rows without a page, whose children have become roots. -/
theorem kept_withoutPage : Kept id kb { kb with pages := WikiState.withoutPage kb.pages pageId } := by
  refine ⟨fun a' ha' => ?_, fun a' ha' y hy hfound => ?_, fun a _ h => h, rfl⟩
  · obtain ⟨a, ha, -, rfl⟩ := mem_withoutPage.mp ha'
    refine ⟨a, ha, ?_⟩
    split
    · exact ⟨rfl, rfl, rfl, Or.inl rfl⟩
    · exact ⟨rfl, rfl, rfl, Or.inr rfl⟩
  · obtain ⟨a, ha, -, rfl⟩ := mem_withoutPage.mp ha'
    -- a row under the deleted page has lost its parent
    have hne : y ≠ pageId := by
      rintro rfl
      split at hy
      · cases hy
      · next hnot => exact hnot hy
    show ((WikiState.withoutPage kb.pages pageId).find y).isSome
    rw [find_withoutPage hne]
    exact hfound

theorem TreeInv.permanentRemove {actor : Option AuthenticatedUser} (h : TreeInv st.kb)
    (hok : st.permanentRemove order pageId actor = .ok st') : TreeInv st'.kb := by
  unfold WikiState.permanentRemove at hok
  split at hok
  · cases hok
  · obtain ⟨_, -, hok⟩ := bind_eq_ok.mp hok
    cases pure_eq_ok.mp hok
    exact h.kept kept_withoutPage

/-- An update of a category writes one row, and keeps its space where an entry uses it. -/
theorem updateCategory_ok {input : UpdateCategoryInput} {actor : Option AuthenticatedUser} {categoryId : String}
    (hok : st.updateCategory order slugify categoryId input actor = .ok st') :
    ∃ existing spaceId slug, st.kb.categories.find categoryId = some existing ∧
      (0 < st.categoryUses categoryId → spaceId = existing.spaceId) ∧ st'.kb.pages = st.kb.pages ∧
      st'.kb.spaces = st.kb.spaces ∧ ∀ c, st'.kb.categories.find c = (st.kb.categories.find c).map fun row =>
        if row.id == categoryId then row.write input spaceId slug else row := by
  unfold WikiState.updateCategory at hok
  split at hok
  · cases hok
  · next existing hfound =>
    obtain ⟨_, -, hok⟩ := bind_eq_ok.mp hok
    obtain ⟨spaceId, -, hok⟩ := bind_eq_ok.mp hok
    obtain ⟨hunused, hok⟩ := throwIf_bind_eq_ok.mp hok
    generalize (input.name.map fun name =>
      uniqueSlug (slugify name) (st.takenCategorySlugs categoryId (input.scope.getD existing.scope) spaceId)) =
        slug at hok
    obtain ⟨-, hok⟩ := throwIf_bind_eq_ok.mp hok
    cases pure_eq_ok.mp hok
    refine ⟨existing, spaceId, slug, hfound, fun huses => ?_, rfl, rfl, fun c => ?_⟩
    · by_contra hne
      exact hunused ⟨Or.inr hne, huses⟩
    · show (st.kb.categories.updateMany (fun row => row.id == categoryId) (Category.write input spaceId slug)
        fun _ => Category.write_id).find c = _
      rw [Table.find_updateMany]

theorem TreeInv.updateCategory {input : UpdateCategoryInput} {actor : Option AuthenticatedUser} {categoryId : String}
    (h : TreeInv st.kb) (hok : st.updateCategory order slugify categoryId input actor = .ok st') : TreeInv st'.kb := by
  obtain ⟨existing, spaceId, slug, hfound, hused, hpages, hspaces, hfind⟩ := updateCategory_ok hok
  have hkept : Kept (fun c => c) st.kb st'.kb := by
    refine ⟨?_, ?_, ?_, hspaces⟩
    · rw [hpages]
      exact fun a ha => ⟨a, ha, rfl, rfl, rfl, Or.inr rfl⟩
    · rw [hpages]
      exact fun _ _ _ _ hy => hy
    · intro a ha hin c hc
      obtain ⟨category, hcategory, hsame⟩ := hin c hc
      refine ⟨if category.id == categoryId then category.write input spaceId slug else category, ?_, ?_⟩
      · rw [hfind, hcategory]
        rfl
      split
      · next hid =>
        -- the page uses the category
        have hcid : categoryId = c := (beq_iff_eq.mp hid).symm.trans (Table.find_eq_some.mp hcategory).2
        have huses : 0 < st.categoryUses categoryId := by
          have hpos : 0 < st.kb.pages.rows.countP fun page => page.categoryId == some categoryId :=
            List.countP_pos_iff.mpr ⟨a, ha, by rw [hc, hcid]; simp⟩
          unfold WikiState.categoryUses
          omega
        have hexisting : existing = category := Option.some.inj (hfound.symm.trans (hcid ▸ hcategory))
        show spaceId = a.spaceId
        rw [hused huses, hexisting, hsame]
      · exact hsame
  exact h.kept hkept

theorem mem_withoutCategory {categoryId : String} {a' : Page} : a' ∈ (WikiState.withoutCategory kb categoryId).pages ↔
    ∃ a ∈ kb.pages, a' = if a.categoryId = some categoryId then { a with categoryId := none } else a := by
  unfold WikiState.withoutCategory
  rw [Table.mem_updateMany]
  simp only [beq_iff_eq]

/-- The rows without a category, whose pages have become pages without one. -/
theorem kept_withoutCategory {categoryId : String} :
    Kept (fun c => if c = some categoryId then none else c) kb (WikiState.withoutCategory kb categoryId) := by
  refine ⟨fun a' ha' => ?_, fun a' _ y _ hy => ?_, ?_, rfl⟩
  · obtain ⟨a, ha, rfl⟩ := mem_withoutCategory.mp ha'
    refine ⟨a, ha, ?_⟩
    by_cases hc : a.categoryId = some categoryId
    · simp [hc]
    · simp [hc]
  · show ((WikiState.withoutCategory kb categoryId).pages.find y).isSome
    rw [WikiState.withoutCategory, Table.find_updateMany, Option.isSome_map]
    exact hy
  · intro a ha hin c hc
    split at hc
    · cases hc
    · next hne =>
      obtain ⟨category, hcategory, hsame⟩ := hin c hc
      refine ⟨category, ?_, hsame⟩
      show (WikiState.withoutCategory kb categoryId).categories.find c = some category
      rw [WikiState.withoutCategory, Table.find_deleteMany, hcategory, Option.filter_some, if_pos]
      have hid : category.id = c := (Table.find_eq_some.mp hcategory).2
      have : category.id ≠ categoryId := fun he => hne (by rw [hc, ← hid, he])
      simpa using this

theorem TreeInv.removeCategory {actor : Option AuthenticatedUser} {categoryId : String}
    (h : TreeInv st.kb) (hok : st.removeCategory order categoryId actor = .ok st') : TreeInv st'.kb := by
  unfold WikiState.removeCategory at hok
  split at hok
  · cases hok
  · obtain ⟨_, -, hok⟩ := bind_eq_ok.mp hok
    obtain ⟨_, -, hok⟩ := bind_eq_ok.mp hok
    cases pure_eq_ok.mp hok
    have hkept : Kept (fun c => if c = some categoryId then none else c) st.kb
        (WikiState.withoutCategory st.kb categoryId) := kept_withoutCategory
    exact h.kept hkept

/-! ## A new row -/

/-- A row that is added keeps the tree exactly if the chain of its parent leaves room for it. -/
theorem TreeInv.insert_iff {page : Page} (h : TreeInv kb)
    (hfind : ∀ x, kb'.pages.find x = (kb.pages.find x).or (if page.id = x then some page else none))
    (hspaces : kb'.spaces = kb.spaces) (hcategories : kb'.categories = kb.categories)
    (hfresh : kb.pages.find page.id = none) (hspace : ∃ space, kb.spaces.find page.spaceId = some space)
    (hcategory : CategoryIn kb page.categoryId page.spaceId)
    (hparent : ∀ y, page.parentId = some y →
      ∃ b, kb.pages.find y = some b ∧ b.spaceId = page.spaceId ∧ b.categoryId = page.categoryId) :
    (∀ y l, page.parentId = some y → PageChain kb.pages y l → l.length < 100) ↔ TreeInv kb' := by
  have hold : ∀ x a, kb.pages.find x = some a → kb'.pages.find x = some a := by
    intro x a hx
    rw [hfind, hx, Option.some_or]
  have hself : kb'.pages.find page.id = some page := by rw [hfind, hfresh, if_pos rfl, Option.none_or]
  have hcases : ∀ a ∈ kb'.pages, a = page ∨ a ∈ kb.pages := by
    intro a ha
    have hrow := hfind a.id
    rw [Table.find_of_mem ha] at hrow
    rcases Option.or_eq_some_iff.mp hrow.symm with hrow | ⟨-, hrow⟩
    · exact Or.inr (Table.find_eq_some.mp hrow).1
    · split at hrow
      · exact Or.inl (Option.some.inj hrow).symm
      · cases hrow
  have hin : ∀ {c s}, CategoryIn kb c s → CategoryIn kb' c s := by
    intro c s hc x hx
    rw [hcategories]
    exact hc x hx
  constructor
  · intro hroom
    refine ⟨fun a ha y hy => ?_, fun a ha => ?_, fun a ha => ?_, fun a ha => ?_⟩
    · rcases hcases a ha with rfl | ha
      · obtain ⟨b, hb, hplace⟩ := hparent y hy
        exact ⟨b, hold y b hb, hplace⟩
      · obtain ⟨b, hb, hplace⟩ := h.edge a ha y hy
        exact ⟨b, hold y b hb, hplace⟩
    · rcases hcases a ha with rfl | ha
      · cases hy : a.parentId with
        | none => exact ⟨[a], .root hself hy, by simp⟩
        | some y =>
          obtain ⟨b, hb, -⟩ := hparent y hy
          obtain ⟨l, hl, -⟩ := h.chain_find hb
          exact ⟨a :: l, .child hself hy (hl.mono hold), hroom y l hy hl⟩
      · obtain ⟨l, hl, hlength⟩ := h.chain a ha
        exact ⟨l, hl.mono hold, hlength⟩
    · rcases hcases a ha with rfl | ha
      · exact hin hcategory
      · exact hin (h.category a ha)
    · rw [hspaces]
      rcases hcases a ha with rfl | ha
      · exact hspace
      · exact h.space a ha
  · intro h' y l hy hl
    obtain ⟨l', hl', hlength⟩ := h'.chain page (Table.find_eq_some.mp hself).1
    have hlong : PageChain kb'.pages page.id (page :: l) := .child hself hy (hl.mono hold)
    rw [hl'.unique hlong, List.length_cons] at hlength
    omega

/-! ## A changed row -/

/-- There are rows under the page, in the trash or not. -/
def HasChildren (pages : Table Page.id) (id : String) : Prop := ∃ a ∈ pages, a.parentId = some id

/-- The row `a` of `z` may become `b`: the new parent is not below `z`, no chain through `z` grows beyond 100 pages, and
with rows under it the page stays in its space and category. -/
structure MoveKeepsTree (kb : KnowledgeBase) (z : String) (a b : Page) : Prop where
  ancestors : ∀ y m, b.parentId = some y → PageChain kb.pages y m → z ∉ m.map Page.id
  depth : ∀ y m x l old, b.parentId = some y → PageChain kb.pages y m → PageChain kb.pages x l → z ∈ l.map Page.id →
    PageChain kb.pages z old → l.length + m.length + 1 ≤ 100 + old.length
  place : HasChildren kb.pages z → b.spaceId = a.spaceId ∧ b.categoryId = a.categoryId

section Write

variable {z : String} {a b : Page}

/-- A tree in which the row of `z` has been replaced. -/
structure Replaced (kb kb' : KnowledgeBase) (z : String) (a b : Page) : Prop where
  old : kb.pages.find z = some a
  new : b.id = z
  find : ∀ x, kb'.pages.find x = if x = z then some b else kb.pages.find x
  spaces : kb'.spaces = kb.spaces
  categories : kb'.categories = kb.categories
  space : ∃ space, kb.spaces.find b.spaceId = some space
  category : CategoryIn kb b.categoryId b.spaceId
  parent : ∀ y, b.parentId = some y →
    ∃ c, kb.pages.find y = some c ∧ c.spaceId = b.spaceId ∧ c.categoryId = b.categoryId

namespace Replaced

variable (hr : Replaced kb kb' z a b)
include hr

theorem find_self : kb'.pages.find z = some b := by rw [hr.find, if_pos rfl]

theorem find_other {x : String} (hx : x ≠ z) : kb'.pages.find x = kb.pages.find x := by rw [hr.find, if_neg hx]

theorem same : ∀ x c, x ≠ z → kb.pages.find x = some c → ∃ c', kb'.pages.find x = some c' ∧ c'.parentId = c.parentId :=
  fun _ c hx hc => ⟨c, (hr.find_other hx).trans hc, rfl⟩

/-- The rows afterwards: the new one, and the others. -/
theorem cases {c : Page} (hc : c ∈ kb'.pages) : c = b ∨ c.id ≠ z ∧ c ∈ kb.pages := by
  have hrow := Table.find_of_mem hc
  by_cases hid : c.id = z
  · rw [hid, hr.find_self] at hrow
    exact Or.inl (Option.some.inj hrow).symm
  · rw [hr.find_other hid] at hrow
    exact Or.inr ⟨hid, (Table.find_eq_some.mp hrow).1⟩

/-- Chains grow as the condition allows. -/
theorem chain (h : TreeInv kb) (hm : MoveKeepsTree kb z a b) {x : String} {l : List Page} (hl : PageChain kb.pages x l)
    (hlength : l.length ≤ 100) : ∃ l', PageChain kb'.pages x l' ∧ l'.length ≤ 100 := by
  cases hy : b.parentId with
  | none =>
    have hkeeps : Keeps kb.pages.find kb'.pages.find Page.parentId fun x => (kb.pages.find x).isSome := by
      intro x c hx hc
      by_cases hxz : x = z
      · subst hxz
        exact ⟨b, hr.find_self, Or.inl hy⟩
      · refine ⟨c, (hr.find_other hxz).trans hc, ?_⟩
        cases hparent : c.parentId with
        | none => exact Or.inl rfl
        | some w =>
          obtain ⟨d, hd, -⟩ := h.edge c (Table.find_eq_some.mp hc).1 w hparent
          exact Or.inr ⟨w, rfl, rfl, Option.isSome_iff_exists.mpr ⟨d, hd⟩⟩
    obtain ⟨c, tl, hc, -⟩ := hl.head
    obtain ⟨l', hl', hle⟩ := hl.keep hkeeps (Option.isSome_iff_exists.mpr ⟨c, hc⟩)
    exact ⟨l', hl', hle.trans hlength⟩
  | some y =>
    obtain ⟨c, hc, -⟩ := hr.parent y hy
    obtain ⟨m, hmchain, -⟩ := h.chain_find hc
    have hkey : ∀ {x c}, kb.pages.find x = some c → c.id = x := fun hrow => find_id hrow
    have havoid := hm.ancestors y m hy hmchain
    rcases Chain.regraft hkey hr.same hr.find_self hy hmchain havoid hl with
      ⟨-, l', hl', hsame⟩ | ⟨old, hold, hmem, l', hl', hsize⟩
    · exact ⟨l', hl', hsame ▸ hlength⟩
    · have hdepth := hm.depth y m x l old hy hmchain hl hmem hold
      exact ⟨l', hl', by omega⟩

theorem inv (h : TreeInv kb) (hm : MoveKeepsTree kb z a b) : TreeInv kb' := by
  have hin : ∀ {c s}, CategoryIn kb c s → CategoryIn kb' c s := by
    intro c s hc x hx
    rw [hr.categories]
    exact hc x hx
  refine ⟨fun c hc y hy => ?_, fun c hc => ?_, fun c hc => ?_, fun c hc => ?_⟩
  · rcases hr.cases hc with rfl | ⟨hid, hc⟩
    · obtain ⟨d, hd, hplace⟩ := hr.parent y hy
      obtain ⟨m, hmchain, -⟩ := h.chain_find hd
      -- the new parent is another row
      have hyz : y ≠ z := by
        rintro rfl
        obtain ⟨e, tl, he, rfl⟩ := hmchain.head
        exact hm.ancestors y _ hy hmchain (by simp [find_id he])
      exact ⟨d, (hr.find_other hyz).trans hd, hplace⟩
    · obtain ⟨d, hd, hspace, hcategory⟩ := h.edge c hc y hy
      by_cases hyz : y = z
      · subst hyz
        obtain rfl : a = d := Option.some.inj (hr.old.symm.trans hd)
        obtain ⟨hs, hcat⟩ := hm.place ⟨c, hc, hy⟩
        exact ⟨b, hr.find_self, hs.trans hspace, hcat.trans hcategory⟩
      · exact ⟨d, (hr.find_other hyz).trans hd, hspace, hcategory⟩
  · rcases hr.cases hc with rfl | ⟨hid, hc⟩
    · obtain ⟨l, hl, hlength⟩ := h.chain_find hr.old
      rw [hr.new]
      exact hr.chain h hm hl hlength
    · obtain ⟨l, hl, hlength⟩ := h.chain c hc
      exact hr.chain h hm hl hlength
  · rcases hr.cases hc with rfl | ⟨-, hc⟩
    · exact hin hr.category
    · exact hin (h.category c hc)
  · rw [hr.spaces]
    rcases hr.cases hc with rfl | ⟨-, hc⟩
    · exact hr.space
    · exact h.space c hc

/-- The condition is exact. -/
theorem moveKeepsTree (h : TreeInv kb) (h' : TreeInv kb') : MoveKeepsTree kb z a b := by
  have hkey : ∀ {x c}, kb.pages.find x = some c → c.id = x := fun hrow => find_id hrow
  obtain ⟨w, hw, -⟩ := h'.chain_find hr.find_self
  have hstep : ∀ {y}, b.parentId = some y → ∃ w₁, PageChain kb'.pages y w₁ ∧ w = b :: w₁ := by
    intro y hy
    cases hw with
    | root hrow hroot =>
      obtain rfl := Option.some.inj (hr.find_self.symm.trans hrow)
      rw [hy] at hroot
      cases hroot
    | child hrow hchild htl =>
      obtain rfl := Option.some.inj (hr.find_self.symm.trans hrow)
      obtain rfl := Option.some.inj (hy.symm.trans hchild)
      exact ⟨_, htl, rfl⟩
  have hancestors : ∀ y m, b.parentId = some y → PageChain kb.pages y m → z ∉ m.map Page.id := by
    intro y m hy hm hmem
    obtain ⟨w₁, hw₁, rfl⟩ := hstep hy
    obtain ⟨old, l', hold, hl', hsize⟩ := hm.reroute hkey hr.same hw hmem
    rw [hl'.unique hw₁, List.length_cons] at hsize
    -- the old chain of `z` is a part of that of its new parent
    obtain ⟨c, hc, hcz⟩ := List.mem_map.mp hmem
    obtain ⟨l₁, l₂, hsplit, hpart, -⟩ := hm.split hkey hc
    rw [hcz] at hpart
    rw [hold.unique hpart, hsplit, List.length_append] at hsize
    omega
  refine ⟨hancestors, fun y m x l old hy hm hl hmem hold => ?_, fun ⟨c, hc, hcz⟩ => ?_⟩
  · obtain ⟨w₁, hw₁, rfl⟩ := hstep hy
    obtain ⟨m', hm', hsame⟩ := hm.avoid hkey hr.same (hancestors y m hy hm)
    obtain ⟨old', l', hold', hl', hsize⟩ := hl.reroute hkey hr.same hw hmem
    obtain ⟨d, tl, hd, -⟩ := hl'.head
    obtain ⟨l'', hl'', hlength⟩ := h'.chain_find hd
    rw [hl''.unique hl'] at hlength
    rw [hold'.unique hold, List.length_cons, hw₁.unique hm', hsame] at hsize
    omega
  · -- a row is not its own parent
    have hid : c.id ≠ z := by
      intro hid
      obtain ⟨l, hl, -⟩ := h.chain c hc
      obtain ⟨e, tl, he, rfl⟩ := hl.head
      obtain rfl : c = e := Option.some.inj ((Table.find_of_mem hc).symm.trans he)
      cases hl with
      | root _ hroot =>
        rw [hcz] at hroot
        cases hroot
      | child hrow hchild htl =>
        have hloop : PageChain kb.pages c.id (c :: tl) := .child hrow hchild htl
        obtain rfl := Option.some.inj (hcz.symm.trans hchild)
        rw [← hid] at htl
        have hlen := congrArg List.length (hloop.unique htl)
        simp at hlen
    have hc' : c ∈ kb'.pages := (Table.find_eq_some.mp ((hr.find_other hid).trans (Table.find_of_mem hc))).1
    obtain ⟨d, hd, hs, hcat⟩ := h.edge c hc z hcz
    obtain ⟨d', hd', hs', hcat'⟩ := h'.edge c hc' z hcz
    obtain rfl : a = d := Option.some.inj (hr.old.symm.trans hd)
    obtain rfl : b = d' := Option.some.inj (hr.find_self.symm.trans hd')
    exact ⟨hs'.trans hs.symm, hcat'.trans hcat.symm⟩

end Replaced

end Write

/-! ## The service -/

section Service

variable {input : Assignment} {existing : Option Page} {spaceId : String}

/-- What a resolved space says about the place of the page. -/
structure ResolvedSpace (kb : KnowledgeBase) (input : Assignment) (existing : Option Page) (spaceId : String) :
    Prop where
  space : ∃ space, kb.spaces.find spaceId = some space
  category : CategoryIn kb (input.newCategoryId existing) spaceId
  parent : ∀ y, input.newParentId existing = some y → ∃ parent, kb.pages.find y = some parent ∧
    parent.spaceId = spaceId ∧ parent.categoryId = input.newCategoryId existing
  requested : ∀ s, input.spaceId = some s → spaceId = s
  unrequested : input.spaceId = none → input.newCategoryId existing = none → input.newParentId existing = none →
    ∀ page, existing = some page → spaceId = page.spaceId

theorem resolveOpenSpace_ok {kind : KnowledgeKind} {requested : Option String}
    (h : kb.resolveOpenSpace kind requested = .ok spaceId) :
    spaceId = requested.getD defaultSpaceId ∧ ∃ space, kb.spaces.find spaceId = some space := by
  unfold KnowledgeBase.resolveOpenSpace at h
  split at h
  · cases h
  · next space hfind =>
    split at h
    · cases h
      have hid : space.id = requested.getD defaultSpaceId := (Table.find_eq_some.mp hfind).2
      exact ⟨hid, space, hid ▸ hfind⟩
    · cases h

theorem resolvePageSpace_ok (h : kb.resolvePageSpace input existing = .ok spaceId) :
    ResolvedSpace kb input existing spaceId := by
  unfold KnowledgeBase.resolvePageSpace at h
  obtain ⟨-, h⟩ := throwIf_bind_eq_ok.mp h
  obtain ⟨_, hscope, h⟩ := bind_eq_ok.mp h
  obtain ⟨hfolder, h⟩ := throwIf_bind_eq_ok.mp h
  obtain ⟨resolved, hresolved, h⟩ := bind_eq_ok.mp h
  obtain ⟨hmatch, h⟩ := throwIf_bind_eq_ok.mp h
  obtain rfl := pure_eq_ok.mp h
  obtain ⟨hcandidate, hspace⟩ := resolveOpenSpace_ok hresolved
  have hscope := throwIf_eq_ok.mp hscope
  refine ⟨hspace, fun c hc => ?_, fun y hy => ?_, fun s hs => ?_, fun hs hc hy page hpage => ?_⟩
  · rw [hc] at hscope hmatch
    cases hcategory : kb.categories.find c with
    | none => simp [hcategory] at hscope
    | some category =>
      refine ⟨category, rfl, ?_⟩
      by_contra hne
      exact hmatch (Or.inl (by simp [hcategory, hne]))
  · rw [hy] at hfolder hmatch
    cases hparent : kb.findLive y with
    | none => simp [hparent] at hfolder
    | some parent =>
      obtain ⟨hfind, -⟩ := Option.filter_eq_some_iff.mp hparent
      refine ⟨parent, hfind, ?_, ?_⟩
      · by_contra hne
        exact hmatch (Or.inr (Or.inl (by simp [hparent, hne])))
      · by_contra hne
        exact hmatch (Or.inr (Or.inr (by simp [hparent, hne])))
  · rw [hcandidate, hs]
    rfl
  · rw [hcandidate, hs, hc, hy, hpage]
    rfl

/-- The place of a page, which an update that does not move it keeps. -/
theorem TreeInv.resolvedSpace {page : Page} (h : TreeInv kb) (hpage : page ∈ kb.pages) :
    ResolvedSpace kb ⟨none, none, none⟩ (some page) page.spaceId where
  space := h.space page hpage
  category := h.category page hpage
  parent y hy := h.edge page hpage y hy
  requested _ hs := by cases hs
  unrequested _ _ _ _ hsome := by rw [Option.some.inj hsome]

/-- The condition on a call, in the state before it. -/
structure UpdateKeepsTree (kb : KnowledgeBase) (input : UpdatePageInput) (page : Page) : Prop where
  ancestors : ∀ y m, input.assignment.newParentId (some page) = some y → PageChain kb.pages y m →
    page.id ∉ m.map Page.id
  depth : ∀ y m x l old, input.assignment.newParentId (some page) = some y → PageChain kb.pages y m →
    PageChain kb.pages x l → page.id ∈ l.map Page.id → PageChain kb.pages page.id old →
    l.length + m.length + 1 ≤ 100 + old.length
  category : HasChildren kb.pages page.id → input.assignment.newCategoryId (some page) = page.categoryId
  space : HasChildren kb.pages page.id → ∀ s, input.spaceId = some s → s = page.spaceId
  parentSpace : HasChildren kb.pages page.id → ∀ y parent, input.assignment.newParentId (some page) = some y →
    kb.pages.find y = some parent → parent.spaceId = page.spaceId

/-- Create: the chain of the new parent has fewer than 100 pages. Update: see `UpdateKeepsTree`. -/
def KeepsTree (st : WikiState) : WikiCall → Prop
  | .create _ input _ _ =>
    ∀ y l, input.assignment.newParentId none = some y → PageChain st.kb.pages y l → l.length < 100
  | .update id input _ => ∀ page, st.kb.pages.find id = some page → UpdateKeepsTree st.kb input page
  | _ => True

theorem create_ok {id authorId : String} {input : CreatePageInput} {actor : Option AuthenticatedUser}
    (h : st.create order slugify id input authorId actor = .ok st') :
    ∃ spaceId pages, ResolvedSpace st.kb input.assignment none spaceId ∧
      st.kb.pages.createMany [st.newPage slugify id input spaceId authorId] = some pages ∧ st' = st.setPages pages := by
  unfold WikiState.create at h
  obtain ⟨spaceId, hspace, h⟩ := bind_eq_ok.mp h
  obtain ⟨_, -, h⟩ := bind_eq_ok.mp h
  obtain ⟨-, h⟩ := throwIf_bind_eq_ok.mp h
  split at h
  · cases h
  · next pages hpages => exact ⟨spaceId, pages, resolvePageSpace_ok hspace, hpages, (pure_eq_ok.mp h).symm⟩

/-- What an update writes. -/
theorem update_ok {id : String} {input : UpdatePageInput} {options : PageUpdateOptions} (hinv : TreeInv st.kb)
    (h : st.update order id input options = .ok st') :
    ∃ page spaceId, st.kb.pages.find id = some page ∧ ResolvedSpace st.kb input.assignment (some page) spaceId ∧
      st'.kb = { st.kb with pages :=
        (st.kb.pages.updateMany (fun row => row.id == id) (page.write input spaceId) fun _ => Page.write_id) } := by
  unfold WikiState.update at h
  split at h
  · cases h
  · next page hfound =>
    obtain ⟨hfind, -⟩ := Option.filter_eq_some_iff.mp hfound
    obtain ⟨_, -, h⟩ := bind_eq_ok.mp h
    obtain ⟨-, h⟩ := throwIf_bind_eq_ok.mp h
    obtain ⟨spaceId, hspace, h⟩ := bind_eq_ok.mp h
    obtain ⟨-, h⟩ := throwIf_bind_eq_ok.mp h
    obtain ⟨-, h⟩ := throwIf_bind_eq_ok.mp h
    cases pure_eq_ok.mp h
    refine ⟨page, spaceId, hfind, ?_, rfl⟩
    unfold WikiState.updatedSpace at hspace
    split at hspace
    · obtain ⟨resolved, hresolved, hspace⟩ := bind_eq_ok.mp hspace
      obtain ⟨_, -, hspace⟩ := bind_eq_ok.mp hspace
      obtain rfl := pure_eq_ok.mp hspace
      exact resolvePageSpace_ok hresolved
    · next hkept =>
      cases hspace
      have hnone : input.assignment = ⟨none, none, none⟩ := by
        simp only [UpdatePageInput.assignmentChanged, Bool.or_eq_true, not_or, Bool.not_eq_true,
          Option.isSome_eq_false_iff, Option.isNone_iff_eq_none] at hkept
        obtain ⟨⟨hs, hc⟩, hp⟩ := hkept
        simp only [UpdatePageInput.assignment, hs, hc, hp]
      rw [hnone]
      exact hinv.resolvedSpace (Table.find_eq_some.mp hfind).1

theorem create_intact {id authorId : String} {input : CreatePageInput} {actor : Option AuthenticatedUser}
    (hinv : TreeInv st.kb) (h : st.create order slugify id input authorId actor = .ok st') :
    KeepsTree st (.create id input authorId actor) ↔ TreeInv st'.kb := by
  obtain ⟨spaceId, pages, hspace, hpages, rfl⟩ := create_ok h
  have hparent : ∀ y, (st.newPage slugify id input spaceId authorId).parentId = some y →
      ∃ b, st.kb.pages.find y = some b ∧ b.spaceId = (st.newPage slugify id input spaceId authorId).spaceId ∧
        b.categoryId = (st.newPage slugify id input spaceId authorId).categoryId := hspace.parent
  have hfresh : st.kb.pages.find id = none := by
    refine Table.find_eq_none.mpr fun a ha hid => ?_
    unfold Table.createMany at hpages
    split at hpages
    · next hnodup =>
      rw [List.map_append, List.nodup_append] at hnodup
      exact hnodup.2.2 _ (List.mem_map_of_mem ha) id (by simp [WikiState.newPage]) hid
    · cases hpages
  have hfind : ∀ x, (st.setPages pages).kb.pages.find x = (st.kb.pages.find x).or
      (if (st.newPage slugify id input spaceId authorId).id = x then some (st.newPage slugify id input spaceId authorId)
        else none) := by
    intro x
    show pages.find x = _
    rw [Table.find_createMany hpages, List.find?_cons]
    congr 1
    by_cases hx : (st.newPage slugify id input spaceId authorId).id = x
    · simp [hx]
    · simp [hx]
  exact hinv.insert_iff hfind rfl rfl hfresh hspace.space hspace.category hparent

/-- The condition on the input of an update is that on the row it writes. -/
theorem updateKeepsTree_iff {input : UpdatePageInput} {page : Page} (hinv : TreeInv kb) (hpage : page ∈ kb.pages)
    (hspace : ResolvedSpace kb input.assignment (some page) spaceId) :
    UpdateKeepsTree kb input page ↔ MoveKeepsTree kb page.id page (page.write input spaceId page) := by
  constructor
  · intro h
    refine ⟨h.ancestors, h.depth, fun hchildren => ⟨?_, h.category hchildren⟩⟩
    show spaceId = page.spaceId
    cases hs : input.spaceId with
    | some s => rw [hspace.requested s hs, h.space hchildren s hs]
    | none =>
      cases hc : input.assignment.newCategoryId (some page) with
      | some c =>
        -- the category of the page lies in its space
        obtain ⟨category, hfind, hin⟩ := hspace.category c hc
        have hown := hinv.category page hpage c (by rw [← h.category hchildren, hc])
        obtain ⟨category', hfind', hin'⟩ := hown
        rw [hfind] at hfind'
        cases hfind'
        rw [← hin, hin']
      | none =>
        cases hy : input.assignment.newParentId (some page) with
        | some y =>
          obtain ⟨parent, hfind, hin, -⟩ := hspace.parent y hy
          rw [← hin, h.parentSpace hchildren y parent hy hfind]
        | none => exact hspace.unrequested hs hc hy page rfl
  · intro h
    refine ⟨h.ancestors, h.depth, fun hchildren => (h.place hchildren).2, fun hchildren s hs => ?_,
      fun hchildren y parent hy hfind => ?_⟩
    · rw [← hspace.requested s hs]
      exact (h.place hchildren).1
    · obtain ⟨parent', hfind', hin, -⟩ := hspace.parent y hy
      rw [hfind] at hfind'
      cases hfind'
      rw [hin]
      exact (h.place hchildren).1

theorem update_intact {id : String} {input : UpdatePageInput} {options : PageUpdateOptions} (hinv : TreeInv st.kb)
    (h : st.update order id input options = .ok st') : KeepsTree st (.update id input options) ↔ TreeInv st'.kb := by
  obtain ⟨page, spaceId, hfind, hspace, hkb⟩ := update_ok hinv h
  obtain ⟨hpage, rfl⟩ := Table.find_eq_some.mp hfind
  have hreplaced : Replaced st.kb st'.kb page.id page (page.write input spaceId page) := by
    rw [hkb]
    refine ⟨hfind, rfl, fun x => ?_, rfl, rfl, hspace.space, hspace.category, hspace.parent⟩
    show (st.kb.pages.updateMany (fun row => row.id == page.id) (page.write input spaceId)
      fun _ => Page.write_id).find x = _
    rw [Table.find_updateMany]
    split
    · next hx =>
      rw [hx, hfind]
      simp
    · next hx =>
      cases hrow : st.kb.pages.find x with
      | none => rfl
      | some row => simp [find_id hrow, hx]
  have hkeeps : KeepsTree st (.update page.id input options) ↔ UpdateKeepsTree st.kb input page := by
    refine ⟨fun hk => hk page hfind, fun hk page' hfind' => ?_⟩
    rw [hfind] at hfind'
    cases hfind'
    exact hk
  rw [hkeeps, updateKeepsTree_iff hinv hpage hspace]
  exact ⟨fun hm => hreplaced.inv hinv hm, fun hinv' => hreplaced.moveKeepsTree hinv hinv'⟩

end Service

/-! ## Runs -/

/-- A call that succeeds keeps the tree exactly if it meets the condition. -/
theorem step_intact {call : RowOrder × WikiCall} (hinv : TreeInv st.kb) (h : st.step slugify call = some st') :
    KeepsTree st call.2 ↔ TreeInv st'.kb := by
  obtain ⟨order, call⟩ := call
  have hok : st.perform slugify order call = .ok st' := by
    unfold WikiState.step at h
    cases hrun : st.perform slugify order call with
    | error e =>
      rw [hrun] at h
      cases h
    | ok t =>
      rw [hrun] at h
      cases h
      rfl
  cases call with
  | create id input authorId actor => exact create_intact hinv hok
  | update id input options => exact update_intact hinv hok
  | remove id deletedById now actor => exact iff_of_true trivial (hinv.remove hok)
  | restore id actor => exact iff_of_true trivial (hinv.restore hok)
  | permanentRemove id actor => exact iff_of_true trivial (hinv.permanentRemove hok)
  | updateCategory id input actor => exact iff_of_true trivial (hinv.updateCategory hok)
  | removeCategory id actor => exact iff_of_true trivial (hinv.removeCategory hok)

/-- **The tree of pages.** In a run that starts without pages, every state has an intact tree exactly if every call
meets the condition in the state before it. -/
theorem page_tree_intact (slugify : String → String) (st st' : WikiState) (calls : List (RowOrder × WikiCall))
    (hempty : st.kb.pages.rows = []) (hrun : Runs.run (WikiState.step slugify) st calls = some st') :
    Runs.Throughout (WikiState.step slugify) (fun t => TreeIntact t.kb) st calls ↔
      Runs.Along (WikiState.step slugify) (fun t call => KeepsTree t call.2) st calls := by
  have hnone : ∀ a, a ∉ st.kb.pages := fun a ha => by
    rw [Table.mem_def, hempty] at ha
    exact absurd ha List.not_mem_nil
  have hstart : TreeInv st.kb :=
    ⟨fun a ha => absurd ha (hnone a), fun a ha => absurd ha (hnone a), fun a ha => absurd ha (hnone a),
      fun a ha => absurd ha (hnone a)⟩
  rw [show (fun t : WikiState => TreeIntact t.kb) = fun t => TreeInv t.kb from funext fun t => propext treeIntact_iff]
  exact Runs.throughout_iff_along (fun _ _ _ hinv h => step_intact hinv h) hstart hrun

namespace TreeDemo

def admin : AuthenticatedUser :=
  ⟨"admin", "admin@wiki", "admin", "Admin", "role", "admin", true, none, some true, some .jwt, none, none⟩

/-- The default space, a category in it, and no pages. -/
def start : WikiState where
  db :=
    { directory :=
        { roles := .single ⟨"role", "admin"⟩
          users := .single ⟨"admin", "admin@wiki", "admin", "Admin", "", "role", true, true, true⟩
          acls := .empty
          permissions := .empty
          providers := .empty
          roleMappings := .empty
          externalIdentities := .empty
          externalRoleGrants := .empty }
      knowledge :=
        { spaces := .single ⟨defaultSpaceId, "Wiki", .opened, [.wiki]⟩
          categories := .single ⟨"guides", "Guides", "guides", .wiki, none, none, 0, defaultSpaceId⟩
          pages := .empty
          notes := .empty
          noteShares := .empty
          standards := .empty }
      groupMemberships := .empty
      resourceAclEntries := .empty
      resourceAclBoundaries := .empty }
  pageVersions := []

def newFolder (id : String) : RowOrder × WikiCall :=
  (.stored, .create id ⟨id, none, .folder, "", none, .published, false, false, none, none⟩ "admin" (some admin))

def moveUnder (id parentId : String) : RowOrder × WikiCall :=
  (.stored, .update id { UpdatePageInput.empty with parentId := some (some parentId) } ⟨some admin, none, none⟩)

end TreeDemo

/-- A folder that is moved into another one and to the trash. -/
theorem page_tree_intact_moved : ∃ st',
    Runs.run (WikiState.step id) TreeDemo.start
        [TreeDemo.newFolder "a", TreeDemo.newFolder "b", TreeDemo.moveUnder "a" "b",
          (.stored, .remove "b" "admin" 0 (some TreeDemo.admin))] = some st' ∧
      (Runs.Throughout (WikiState.step id) (fun t => TreeIntact t.kb) TreeDemo.start
          [TreeDemo.newFolder "a", TreeDemo.newFolder "b", TreeDemo.moveUnder "a" "b",
            (.stored, .remove "b" "admin" 0 (some TreeDemo.admin))] ↔
        Runs.Along (WikiState.step id) (fun t call => KeepsTree t call.2) TreeDemo.start
          [TreeDemo.newFolder "a", TreeDemo.newFolder "b", TreeDemo.moveUnder "a" "b",
            (.stored, .remove "b" "admin" 0 (some TreeDemo.admin))]) := by
  have hsome : (Runs.run (WikiState.step id) TreeDemo.start
      [TreeDemo.newFolder "a", TreeDemo.newFolder "b", TreeDemo.moveUnder "a" "b",
        (.stored, .remove "b" "admin" 0 (some TreeDemo.admin))]).isSome := by decide +kernel
  obtain ⟨st', hrun⟩ := Option.isSome_iff_exists.mp hsome
  exact ⟨st', hrun, page_tree_intact id TreeDemo.start st' _ rfl hrun⟩

/-- Each of two folders is moved into the other. No hierarchy of the two pages can be found any more. -/
theorem folders_in_each_other : ∃ st',
    Runs.run (WikiState.step id) TreeDemo.start
        [TreeDemo.newFolder "a", TreeDemo.newFolder "b", TreeDemo.moveUnder "a" "b", TreeDemo.moveUnder "b" "a"] =
      some st' ∧
    (st'.kb.pages.find "a").isSome ∧ pageHierarchies .stored st'.kb ["a"] = .error chainTooDeep ∧
      ¬TreeIntact st'.kb := by
  have hrun : (Runs.run (WikiState.step id) TreeDemo.start
      [TreeDemo.newFolder "a", TreeDemo.newFolder "b", TreeDemo.moveUnder "a" "b", TreeDemo.moveUnder "b" "a"]).any
      fun st' => (st'.kb.pages.find "a").isSome && match pageHierarchies .stored st'.kb ["a"] with
        | .error e => e == chainTooDeep
        | .ok _ => false := by decide +kernel
  obtain ⟨st', hst', hany⟩ := (Option.any_eq_true _ _).mp hrun
  obtain ⟨hfound, herror⟩ := Bool.and_eq_true_iff.mp hany
  have hdeep : pageHierarchies .stored st'.kb ["a"] = .error chainTooDeep := by
    cases h : pageHierarchies .stored st'.kb ["a"] with
    | error e =>
      rw [h] at herror
      rw [beq_iff_eq.mp herror]
    | ok m =>
      rw [h] at herror
      cases herror
  refine ⟨st', hst', hfound, hdeep, fun h => ?_⟩
  obtain ⟨m, hm⟩ := h.resolves .stored ["a"] fun x hx => List.mem_singleton.mp hx ▸ hfound
  rw [hdeep] at hm
  cases hm

end AdWiki.Wiki
