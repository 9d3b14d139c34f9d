import AdWiki.Wiki.PageCalls
import AdWiki.Wiki.SpaceKinds

/-!
# Slugs

Pages and categories are addressed by a slug, which `slugify` makes out of the title or name and `generateUniqueSlug` out
of that. No two pages have the same one, and no two categories of a space and scope; but a title of which `slugify` leaves
nothing gets the empty slug.

* `uniqueSlug_found`: the search for a slug ends.
* `usable_uniqueSlug`: when the slug that it finds is usable.
* `usableSlugs_iff`: the runs in which all slugs are usable throughout.
-/

namespace AdWiki.Wiki

open Access Fallible

variable {slugify : String → String} {sameName : String → String → Bool} {order : RowOrder} {st st' : WikiState}
  {kb kb' : KnowledgeBase}
  {actor : Option AuthenticatedUser} {c : Outside} {id base slug : String} {taken : List String}
    {categories : Table Category.id}

/-! ## Usable slugs -/

/-- The characters that `slugify` leaves with the options `lower` and `strict`. -/
def isSlugChar (c : Char) : Bool := c.isLower || c.isDigit || c == '-'

def SlugText (text : String) : Prop := ∀ c ∈ text.toList, isSlugChar c = true

def Usable (slug : String) : Prop := slug ≠ "" ∧ SlugText slug

theorem slugText_candidate (h : SlugText base) (counter : Nat) : SlugText (slugCandidate base counter) := by
  unfold slugCandidate
  split
  · exact h
  · intro c hc
    rw [String.toList_append, String.toList_append, Nat.toList_repr, List.mem_append, List.mem_append] at hc
    rcases hc with (hc | hc) | hc
    · exact h c hc
    · obtain rfl : c = '-' := by simpa using hc
      rfl
    · have hdigit : c.isDigit = true := Nat.isDigit_of_mem_toDigits (by decide) (by decide) hc
      simp [isSlugChar, hdigit]

/-- The search for a slug ends. -/
theorem uniqueSlug_found (base : String) (taken : List String) :
    Fresh.firstFree (slugCandidate base) taken (taken.length + 1) 1 = some (uniqueSlug base taken) := by
  obtain ⟨slug, hslug⟩ : ∃ slug, Fresh.firstFree (slugCandidate base) taken (taken.length + 1) 1 = some slug :=
    Fresh.firstFree_isSome fun i j hi hj h => slugCandidate_inj hi hj h
  rw [uniqueSlug, hslug]
  rfl

/-- Only the empty base leads to the empty slug, and only once. -/
theorem usable_uniqueSlug (h : SlugText base) : Usable (uniqueSlug base taken) ↔ base ≠ "" ∨ "" ∈ taken := by
  obtain ⟨counter, -, hslug, hbefore⟩ := Fresh.firstFree_eq_some (uniqueSlug_found base taken)
  have htext : SlugText (uniqueSlug base taken) := hslug ▸ slugText_candidate h counter
  constructor
  · rintro ⟨hne, -⟩
    by_cases hbase : base = ""
    · right
      by_cases hcounter : counter ≤ 1
      · rw [hslug, slugCandidate, if_pos hcounter] at hne
        exact absurd hbase hne
      · have hfirst := hbefore 1 (Nat.le_refl 1) (by omega)
        rw [slugCandidate, if_pos (Nat.le_refl 1), hbase] at hfirst
        exact hfirst
    · exact .inl hbase
  · rintro (hbase | hempty)
    · refine ⟨fun heq => ?_, htext⟩
      rw [hslug, slugCandidate] at heq
      split at heq
      · exact hbase heq
      · have hlength := congrArg String.length heq
        have hdash : "-".length = 1 := by decide
        rw [String.length_append, String.length_append, hdash, String.length_empty] at hlength
        omega
    · refine ⟨fun heq => ?_, htext⟩
      have hfree := uniqueSlug_not_mem base taken
      rw [heq] at hfree
      exact hfree hempty

/-- Every page has a usable slug that no other page has, and every category one that no other category of its space and
scope has. -/
structure UsableSlugs (kb : KnowledgeBase) : Prop where
  pages_unique : ∀ a ∈ kb.pages, ∀ b ∈ kb.pages, a.slug = b.slug → a = b
  categories_unique : ∀ a ∈ kb.categories, ∀ b ∈ kb.categories, a.spaceId = b.spaceId → a.scope = b.scope →
    a.slug = b.slug → a = b
  pages_usable : ∀ page ∈ kb.pages, Usable page.slug
  categories_usable : ∀ category ∈ kb.categories, Usable category.slug

/-! ## Calls that make no slug -/

/-- Pages keep their slugs, and categories stay as they are, where they stay. -/
structure KeepsSlugs (kb kb' : KnowledgeBase) : Prop where
  pages : ∀ x page', kb'.pages.find x = some page' → ∃ page, kb.pages.find x = some page ∧ page.slug = page'.slug
  categories : ∀ category ∈ kb'.categories, category ∈ kb.categories

theorem UsableSlugs.keeps (h : UsableSlugs kb) (hkeeps : KeepsSlugs kb kb') : UsableSlugs kb' := by
  have hold : ∀ page' ∈ kb'.pages, ∃ page ∈ kb.pages, page.id = page'.id ∧ page.slug = page'.slug := by
    intro page' hpage'
    obtain ⟨page, hfind, hslug⟩ := hkeeps.pages _ page' (Table.find_of_mem hpage')
    obtain ⟨hpage, hid⟩ := Table.find_eq_some.mp hfind
    exact ⟨page, hpage, hid, hslug⟩
  constructor
  · intro a' ha' b' hb' hsame
    obtain ⟨a, ha, haid, haslug⟩ := hold a' ha'
    obtain ⟨b, hb, hbid, hbslug⟩ := hold b' hb'
    have hab := h.pages_unique a ha b hb (haslug.trans (hsame.trans hbslug.symm))
    exact Rows.eq_of_key kb'.pages.unique ha' hb' (by rw [← haid, ← hbid, hab])
  · intro a ha b hb
    exact h.categories_unique a (hkeeps.categories a ha) b (hkeeps.categories b hb)
  · intro page' hpage'
    obtain ⟨page, hpage, -, hslug⟩ := hold page' hpage'
    exact hslug ▸ h.pages_usable page hpage
  · intro category hcategory
    exact h.categories_usable category (hkeeps.categories category hcategory)

theorem keepsSlugs_of_eq (hpages : kb'.pages = kb.pages) (hcategories : kb'.categories = kb.categories) :
    KeepsSlugs kb kb' where
  pages _ page' hfind := ⟨page', hpages ▸ hfind, rfl⟩
  categories _ hcategory := hcategories ▸ hcategory

theorem Updated.keepsSlugs {input : UpdatePageInput} {page : Page} {spaceId : String}
    (h : Updated kb kb' input page spaceId) : KeepsSlugs kb kb' where
  pages x page' hfind := by
    rw [h.find] at hfind
    split at hfind
    · next hx =>
      cases hfind
      exact ⟨page, hx ▸ h.found, rfl⟩
    · exact ⟨page', hfind, rfl⟩
  categories category hcategory := by
    rw [h.rest] at hcategory
    exact hcategory

theorem Removed.keepsSlugs {page : Page} {now : Time} {deletedById : String} (h : Removed kb kb' page now deletedById) :
    KeepsSlugs kb kb' where
  pages x page' hfind := by
    rw [h.find] at hfind
    obtain ⟨row, hrow, rfl⟩ := Option.map_eq_some_iff.mp hfind
    refine ⟨row, hrow, ?_⟩
    unfold trashed
    dsimp only
    split <;> split <;> rfl
  categories category hcategory := by
    rw [h.rest] at hcategory
    exact hcategory

theorem Restored.keepsSlugs {page : Page} (h : Restored kb kb' page) : KeepsSlugs kb kb' where
  pages x page' hfind := by
    rw [h.find] at hfind
    split at hfind
    · next hx =>
      cases hfind
      exact ⟨page, hx ▸ h.found, rfl⟩
    · exact ⟨page', hfind, rfl⟩
  categories category hcategory := by
    rw [h.rest] at hcategory
    exact hcategory

theorem Purged.keepsSlugs {page : Page} (h : Purged kb kb' page) : KeepsSlugs kb kb' where
  pages x page' hfind := by
    rw [h.find] at hfind
    split at hfind
    · cases hfind
    · obtain ⟨row, hrow, rfl⟩ := Option.map_eq_some_iff.mp hfind
      refine ⟨row, hrow, ?_⟩
      split <;> rfl
  categories category hcategory := by
    rw [h.rest] at hcategory
    exact hcategory

theorem removeCategory_keepsSlugs (hok : st.removeCategory order id actor = .ok st') : KeepsSlugs st.kb st'.kb := by
  unfold WikiState.removeCategory at hok
  split at hok
  · cases hok
  · obtain ⟨_, -, hok⟩ := bind_eq_ok.mp hok
    obtain ⟨_, -, hok⟩ := bind_eq_ok.mp hok
    cases pure_eq_ok.mp hok
    constructor
    · intro x page' hfind
      change (WikiState.withoutCategory st.kb id).pages.find x = some page' at hfind
      rw [WikiState.withoutCategory, Table.find_updateMany] at hfind
      obtain ⟨row, hrow, rfl⟩ := Option.map_eq_some_iff.mp hfind
      refine ⟨row, hrow, ?_⟩
      split <;> rfl
    · intro category hcategory
      exact (Table.mem_deleteMany.mp hcategory).1

theorem createSpace_keepsSlugs {input : CreateKnowledgeSpaceInput} {newId : Action → String}
    (hok : st.createSpace sameName input actor c newId = .ok st') : KeepsSlugs st.kb st'.kb := by
  unfold WikiState.createSpace at hok
  obtain ⟨-, hok⟩ := throwIf_bind_eq_ok.mp hok
  obtain ⟨_, -, hok⟩ := bind_eq_ok.mp hok
  obtain ⟨_, -, hok⟩ := bind_eq_ok.mp hok
  dsimp only at hok
  split at hok
  · cases hok
  · cases pure_eq_ok.mp hok
    rw [restrictTo_kb]
    exact keepsSlugs_of_eq rfl rfl

theorem updateSpace_keepsSlugs {input : UpdateKnowledgeSpaceInput} {newId : Action → String}
    (hok : st.updateSpace order sameName id input actor c newId = .ok st') : KeepsSlugs st.kb st'.kb := by
  unfold WikiState.updateSpace at hok
  obtain ⟨_, -, hok⟩ := bind_eq_ok.mp hok
  split at hok
  · cases hok
  · obtain ⟨_, -, hok⟩ := bind_eq_ok.mp hok
    obtain ⟨_, -, hok⟩ := bind_eq_ok.mp hok
    obtain ⟨_, -, hok⟩ := bind_eq_ok.mp hok
    obtain ⟨-, hok⟩ := throwIf_bind_eq_ok.mp hok
    cases pure_eq_ok.mp hok
    rw [restrictTo_kb]
    exact keepsSlugs_of_eq rfl rfl

theorem createNote_keepsSlugs {input : CreateNoteInput} {ownerId : String}
    (hok : st.createNote order input ownerId actor c = .ok st') :
    KeepsSlugs st.kb st'.kb := by
  unfold WikiState.createNote at hok
  obtain ⟨_, -, hok⟩ := bind_eq_ok.mp hok
  obtain ⟨_, -, hok⟩ := bind_eq_ok.mp hok
  obtain ⟨_, -, hok⟩ := bind_eq_ok.mp hok
  obtain ⟨-, hok⟩ := throwIf_bind_eq_ok.mp hok
  split at hok
  · cases hok
  · cases pure_eq_ok.mp hok
    exact keepsSlugs_of_eq rfl rfl

theorem updateNote_keepsSlugs {input : UpdateNoteInput} {userId : String}
    (hok : st.updateNote order id input userId actor c = .ok st') :
    KeepsSlugs st.kb st'.kb := by
  unfold WikiState.updateNote at hok
  obtain ⟨_, -, hok⟩ := bind_eq_ok.mp hok
  obtain ⟨_, -, hok⟩ := bind_eq_ok.mp hok
  obtain ⟨-, hok⟩ := throwIf_bind_eq_ok.mp hok
  obtain ⟨_, -, hok⟩ := bind_eq_ok.mp hok
  cases pure_eq_ok.mp hok
  exact keepsSlugs_of_eq rfl rfl

theorem createStandard_keepsSlugs {input : Standards.CreateStandardInput} {userId : String}
    (hok : st.createStandard order input userId actor c = .ok st') : KeepsSlugs st.kb st'.kb := by
  unfold WikiState.createStandard at hok
  obtain ⟨_, -, hok⟩ := bind_eq_ok.mp hok
  obtain ⟨_, -, hok⟩ := bind_eq_ok.mp hok
  obtain ⟨_, -, hok⟩ := bind_eq_ok.mp hok
  obtain ⟨_, -, hok⟩ := bind_eq_ok.mp hok
  obtain ⟨_, -, hok⟩ := bind_eq_ok.mp hok
  obtain ⟨_, -, hok⟩ := bind_eq_ok.mp hok
  obtain ⟨-, hok⟩ := throwIf_bind_eq_ok.mp hok
  split at hok
  · cases hok
  · cases pure_eq_ok.mp hok
    exact keepsSlugs_of_eq rfl rfl

theorem updateStandard_keepsSlugs {input : Standards.UpdateStandardInput} {details : StandardDetails}
    (hok : st.updateStandard order id input actor c details = .ok st') : KeepsSlugs st.kb st'.kb := by
  unfold WikiState.updateStandard at hok
  obtain ⟨_, -, hok⟩ := bind_eq_ok.mp hok
  split at hok
  · cases hok
  · obtain ⟨-, hok⟩ := throwIf_bind_eq_ok.mp hok
    obtain ⟨-, hok⟩ := throwIf_bind_eq_ok.mp hok
    split at hok
    · cases pure_eq_ok.mp hok
      exact keepsSlugs_of_eq rfl rfl
    · obtain ⟨_, -, hok⟩ := bind_eq_ok.mp hok
      obtain ⟨_, -, hok⟩ := bind_eq_ok.mp hok
      obtain ⟨_, -, hok⟩ := bind_eq_ok.mp hok
      obtain ⟨_, -, hok⟩ := bind_eq_ok.mp hok
      obtain ⟨_, -, hok⟩ := bind_eq_ok.mp hok
      cases pure_eq_ok.mp hok
      exact keepsSlugs_of_eq rfl rfl

/-! ## Calls that make a slug -/

theorem Created.usable_iff {page : Page} (h : UsableSlugs kb) (hcreated : Created kb kb' page)
    (hslug : page.slug = uniqueSlug base (kb.pages.rows.map Page.slug)) (htext : SlugText base) :
    base ≠ "" ↔ UsableSlugs kb' := by
  have hfree : ∀ row ∈ kb.pages, row.slug ≠ page.slug := by
    intro row hrow heq
    have hnot := uniqueSlug_not_mem base (kb.pages.rows.map Page.slug)
    exact hnot (hslug ▸ heq ▸ List.mem_map_of_mem hrow)
  have hempty : "" ∉ kb.pages.rows.map Page.slug := by
    intro hmem
    obtain ⟨row, hrow, heq⟩ := List.mem_map.mp hmem
    exact (h.pages_usable row hrow).1 heq
  have husable : Usable page.slug ↔ base ≠ "" := by
    rw [hslug, usable_uniqueSlug htext]
    simp [hempty]
  have hcategories : kb'.categories = kb.categories := by rw [hcreated.rest]
  rw [← husable]
  constructor
  · intro hpage
    constructor
    · intro a ha b hb hsame
      rcases (hcreated.rows a).mp ha with ha | rfl
      · rcases (hcreated.rows b).mp hb with hb | rfl
        · exact h.pages_unique a ha b hb hsame
        · exact absurd hsame (hfree a ha)
      · rcases (hcreated.rows b).mp hb with hb | rfl
        · exact absurd hsame.symm (hfree b hb)
        · rfl
    · rw [hcategories]
      exact h.categories_unique
    · intro row hrow
      rcases (hcreated.rows row).mp hrow with hrow | rfl
      · exact h.pages_usable row hrow
      · exact hpage
    · rw [hcategories]
      exact h.categories_usable
  · intro h'
    exact h'.pages_usable page ((hcreated.rows page).mpr (.inr rfl))

/-- The category has been written, and no other one has its slug. -/
structure WritesCategory (kb kb' : KnowledgeBase) (row : Category) : Prop where
  pages : kb'.pages = kb.pages
  rows : ∀ category, category ∈ kb'.categories ↔ category = row ∨ category ∈ kb.categories ∧ category.id ≠ row.id
  apart : ∀ other ∈ kb.categories, other.id ≠ row.id → other.spaceId = row.spaceId → other.scope = row.scope →
    other.slug ≠ row.slug

theorem apart_of_clash {row : Category} (h : ¬st.categoryClash row = true) :
    ∀ other ∈ st.kb.categories, other.id ≠ row.id → other.spaceId = row.spaceId → other.scope = row.scope →
      other.slug ≠ row.slug := by
  intro other hother hid hspace hscope hslug
  refine h (List.any_eq_true.mpr ⟨other, hother, ?_⟩)
  simp [hid, hspace, hscope, hslug]

theorem WritesCategory.usable_iff {row : Category} (h : UsableSlugs kb) (hwrites : WritesCategory kb kb' row) :
    Usable row.slug ↔ UsableSlugs kb' := by
  constructor
  · intro hrow
    constructor
    · rw [hwrites.pages]
      exact h.pages_unique
    · intro a ha b hb hspace hscope hslug
      rcases (hwrites.rows a).mp ha with rfl | ⟨ha, haid⟩
      · rcases (hwrites.rows b).mp hb with rfl | ⟨hb, hbid⟩
        · rfl
        · exact absurd hslug.symm (hwrites.apart b hb hbid hspace.symm hscope.symm)
      · rcases (hwrites.rows b).mp hb with rfl | ⟨hb, hbid⟩
        · exact absurd hslug (hwrites.apart a ha haid hspace hscope)
        · exact h.categories_unique a ha b hb hspace hscope hslug
    · rw [hwrites.pages]
      exact h.pages_usable
    · intro category hcategory
      rcases (hwrites.rows category).mp hcategory with rfl | ⟨hcategory, -⟩
      · exact hrow
      · exact h.categories_usable category hcategory
  · intro h'
    exact h'.categories_usable row ((hwrites.rows row).mpr (.inl rfl))

theorem createCategory_writes {input : CreateCategoryInput}
    (hok : st.createCategory order slugify input actor c = .ok st') :
    ∃ row spaceId,
      row.slug = uniqueSlug (slugify input.name) (st.takenCategorySlugs c.id (input.scope.getD .wiki) spaceId) ∧
      WritesCategory st.kb st'.kb row := by
  unfold WikiState.createCategory at hok
  obtain ⟨spaceId, -, hok⟩ := bind_eq_ok.mp hok
  obtain ⟨_, -, hok⟩ := bind_eq_ok.mp hok
  obtain ⟨hclash, hok⟩ := throwIf_bind_eq_ok.mp hok
  split at hok
  · cases hok
  · next categories hcreate =>
    cases pure_eq_ok.mp hok
    refine ⟨_, spaceId, ?_, rfl, fun category => ?_, apart_of_clash hclash⟩
    · rfl
    · show category ∈ categories ↔ _
      rw [Table.mem_createMany hcreate, List.mem_singleton]
      constructor
      · rintro (hold | rfl)
        · exact .inr ⟨hold, Table.key_ne_of_createMany hcreate hold (List.mem_singleton.mpr rfl)⟩
        · exact .inl rfl
      · rintro (rfl | ⟨hold, -⟩)
        · exact .inr rfl
        · exact .inl hold

theorem updateCategory_writes {input : UpdateCategoryInput}
    (hok : st.updateCategory order slugify id input actor = .ok st') :
    ∃ existing spaceId, existing ∈ st.kb.categories ∧
      WritesCategory st.kb st'.kb (existing.write input spaceId (input.name.map fun name =>
      uniqueSlug (slugify name) (st.takenCategorySlugs id (input.scope.getD existing.scope) spaceId))) := by
  unfold WikiState.updateCategory at hok
  split at hok
  · cases hok
  · next existing hfound =>
    obtain ⟨hmem, hid⟩ := Table.find_eq_some.mp hfound
    obtain ⟨_, -, hok⟩ := bind_eq_ok.mp hok
    obtain ⟨spaceId, -, hok⟩ := bind_eq_ok.mp hok
    obtain ⟨-, hok⟩ := throwIf_bind_eq_ok.mp hok
    obtain ⟨hclash, hok⟩ := throwIf_bind_eq_ok.mp hok
    cases pure_eq_ok.mp hok
    refine ⟨existing, spaceId, hmem, rfl, fun category => ?_, apart_of_clash hclash⟩
    show category ∈ st.kb.categories.updateMany (fun row => row.id == id) (Category.write input spaceId _)
      (fun _ => Category.write_id) ↔ _
    rw [Table.mem_updateMany, Category.write_id, hid]
    constructor
    · rintro ⟨row, hrow, rfl⟩
      split
      · next hkey =>
        have hsame : row = existing :=
          Rows.eq_of_key st.kb.categories.unique hrow hmem ((beq_iff_eq.mp hkey).trans hid.symm)
        exact .inl (by rw [hsame])
      · next hkey => exact .inr ⟨hrow, by simpa using hkey⟩
    · rintro (rfl | ⟨hcategory, hne⟩)
      · exact ⟨existing, hmem, by simp [hid]⟩
      · exact ⟨category, hcategory, by simp [hne]⟩

/-! ## Runs -/

/-- Something is left of the title or name that the call gives. -/
def givesSlug (slugify : String → String) : SpaceCall → Bool
  | .wiki (.create _ input _ _) => slugify input.title ≠ ""
  | .wiki (.updateCategory _ input _) => input.name.all fun name => slugify name ≠ ""
  | .createCategory input _ _ => slugify input.name ≠ ""
  | _ => true

theorem usable_categorySlug {scope : KnowledgeKind} {spaceId : String} (h : UsableSlugs st.kb) (htext : SlugText base) :
    Usable (uniqueSlug base (st.takenCategorySlugs id scope spaceId)) ↔ base ≠ "" := by
  have hempty : "" ∉ st.takenCategorySlugs id scope spaceId := by
    intro hmem
    obtain ⟨row, hrow, heq⟩ := List.mem_map.mp hmem
    exact (h.categories_usable row (List.mem_of_mem_filter hrow)).1 heq
  rw [usable_uniqueSlug htext]
  simp [hempty]

theorem updateCategory_usableSlugs {input : UpdateCategoryInput} (hslugify : ∀ text, SlugText (slugify text))
    (h : UsableSlugs st.kb) (hok : st.updateCategory order slugify id input actor = .ok st') :
    (input.name.all fun name => slugify name ≠ "") = true ↔ UsableSlugs st'.kb := by
  obtain ⟨existing, spaceId, hexisting, hwrites⟩ := updateCategory_writes hok
  rw [← hwrites.usable_iff h]
  cases hname : input.name with
  | none => exact iff_of_true rfl (h.categories_usable existing hexisting)
  | some name =>
    have hiff : Usable (uniqueSlug (slugify name) (st.takenCategorySlugs id (input.scope.getD existing.scope) spaceId)) ↔
        slugify name ≠ "" :=
      usable_categorySlug h (hslugify name)
    exact decide_eq_true_iff.trans hiff.symm

theorem spaceStep_usableSlugs {call : RowOrder × SpaceCall} (hslugify : ∀ text, SlugText (slugify text))
    (h : UsableSlugs st.kb)
    (hstep : st.spaceStep slugify sameName call = some st') : givesSlug slugify call.2 = true ↔ UsableSlugs st'.kb := by
  obtain ⟨order, call⟩ := call
  have hok : st.performSpace slugify sameName order call = .ok st' := spaceStep_ok hstep
  cases call with
  | wiki call =>
    cases call with
    | create id input authorId actor =>
      obtain ⟨spaceId, hcreated⟩ := create_created hok
      exact decide_eq_true_iff.trans (hcreated.usable_iff h rfl (hslugify input.title))
    | update id input options =>
      obtain ⟨page, spaceId, -, hupdated⟩ := update_updated hok
      exact iff_of_true rfl (h.keeps hupdated.keepsSlugs)
    | remove id deletedById now actor =>
      obtain ⟨page, -, hremoved⟩ := remove_removed hok
      exact iff_of_true rfl (h.keeps hremoved.keepsSlugs)
    | restore id actor =>
      obtain ⟨page, -, hrestored⟩ := restore_restored hok
      exact iff_of_true rfl (h.keeps hrestored.keepsSlugs)
    | permanentRemove id actor =>
      obtain ⟨page, -, hpurged⟩ := permanentRemove_purged hok
      exact iff_of_true rfl (h.keeps hpurged.keepsSlugs)
    | updateCategory id input actor => exact updateCategory_usableSlugs hslugify h hok
    | removeCategory id actor => exact iff_of_true rfl (h.keeps (removeCategory_keepsSlugs hok))
  | createSpace input actor c newId => exact iff_of_true rfl (h.keeps (createSpace_keepsSlugs hok))
  | updateSpace id input actor c newId => exact iff_of_true rfl (h.keeps (updateSpace_keepsSlugs hok))
  | createCategory input actor c =>
    obtain ⟨row, spaceId, hslug, hwrites⟩ := createCategory_writes hok
    rw [← hwrites.usable_iff h, hslug, usable_categorySlug h (hslugify input.name)]
    exact decide_eq_true_iff
  | createNote input ownerId actor c => exact iff_of_true rfl (h.keeps (createNote_keepsSlugs hok))
  | updateNote id input userId actor c => exact iff_of_true rfl (h.keeps (updateNote_keepsSlugs hok))
  | createStandard input userId actor c => exact iff_of_true rfl (h.keeps (createStandard_keepsSlugs hok))
  | updateStandard id input actor c details => exact iff_of_true rfl (h.keeps (updateStandard_keepsSlugs hok))

/-- **All slugs are usable throughout exactly the runs in which something is left of every title and name**; the search
for a slug always ends. -/
theorem usableSlugs_iff {calls : List (RowOrder × SpaceCall)} (hslugify : ∀ text, SlugText (slugify text))
    (hs : UsableSlugs st.kb) (hrun : Runs.run (WikiState.spaceStep slugify sameName) st calls = some st') :
    (∀ base taken, Fresh.firstFree (slugCandidate base) taken (taken.length + 1) 1 = some (uniqueSlug base taken)) ∧
      (Runs.Throughout (WikiState.spaceStep slugify sameName) (fun t => UsableSlugs t.kb) st calls ↔
        ∀ call ∈ calls, givesSlug slugify call.2 = true) := by
  refine ⟨uniqueSlug_found, ?_⟩
  have hstep : ∀ (s : WikiState) (call : RowOrder × SpaceCall) (t : WikiState), UsableSlugs s.kb →
      WikiState.spaceStep slugify sameName s call = some t → (givesSlug slugify call.2 = true ↔ UsableSlugs t.kb) :=
    fun _ _ _ h hstep => spaceStep_usableSlugs hslugify h hstep
  rw [Runs.throughout_iff_along hstep hs hrun]
  exact Runs.along_labels hrun

namespace SlugDemo

/-- `slugify` on titles of ASCII letters, digits and other scripts. -/
def ofTitle (text : String) : String := String.ofList ((text.toList.map Char.toLower).filter isSlugChar)

def newPage (id title : String) : RowOrder × SpaceCall :=
  (.stored,
    .wiki (.create id ⟨title, none, .page, "", none, .published, false, false, none, none⟩ "admin" (some TreeDemo.admin)))

end SlugDemo

theorem slugText_demo (text : String) : SlugText (SlugDemo.ofTitle text) := by
  intro c hc
  rw [SlugDemo.ofTitle, String.toList_ofList] at hc
  exact List.of_mem_filter hc

theorem usableSlugs_start : UsableSlugs TreeDemo.start.kb := by
  constructor
  · intro a ha
    cases ha
  · intro a ha b hb _ _ _
    rw [List.mem_singleton.mp ha, List.mem_singleton.mp hb]
  · intro page hpage
    cases hpage
  · intro category hcategory
    obtain rfl := List.mem_singleton.mp hcategory
    have hall : ("guides".toList.all isSlugChar) = true := by decide
    exact ⟨by decide, List.all_eq_true.mp hall⟩

/-- Two pages with one title. -/
theorem usableSlugs_iff_twice : ∃ st', Runs.run (WikiState.spaceStep SlugDemo.ofTitle (· == ·)) TreeDemo.start
      [SlugDemo.newPage "1" "Linux", SlugDemo.newPage "2" "Linux"] = some st' ∧
    st'.kb.pages.rows.map Page.slug = ["linux", "linux-2"] ∧
    Runs.Throughout (WikiState.spaceStep SlugDemo.ofTitle (· == ·)) (fun t => UsableSlugs t.kb) TreeDemo.start
      [SlugDemo.newPage "1" "Linux", SlugDemo.newPage "2" "Linux"] := by
  have hrun : (Runs.run (WikiState.spaceStep SlugDemo.ofTitle (· == ·)) TreeDemo.start
      [SlugDemo.newPage "1" "Linux", SlugDemo.newPage "2" "Linux"]).map (fun t => t.kb.pages.rows.map Page.slug) =
        some ["linux", "linux-2"] := by decide +kernel
  obtain ⟨st', hrun, hslugs⟩ := Option.map_eq_some_iff.mp hrun
  exact ⟨st', hrun, hslugs, (usableSlugs_iff slugText_demo usableSlugs_start hrun).2.mpr (by decide +kernel)⟩

/-- A title in another script. -/
theorem empty_slug : ∃ st',
    Runs.run (WikiState.spaceStep SlugDemo.ofTitle (· == ·)) TreeDemo.start [SlugDemo.newPage "1" "日本語"] = some st' ∧
    st'.kb.pages.rows.map Page.slug = [""] ∧ ¬UsableSlugs st'.kb := by
  have hrun : (Runs.run (WikiState.spaceStep SlugDemo.ofTitle (· == ·)) TreeDemo.start [SlugDemo.newPage "1" "日本語"]).map
      (fun t => t.kb.pages.rows.map Page.slug) = some [""] := by decide +kernel
  obtain ⟨st', hrun, hslugs⟩ := Option.map_eq_some_iff.mp hrun
  refine ⟨st', hrun, hslugs, fun husable => ?_⟩
  obtain ⟨page, hpage, hslug⟩ : ∃ page ∈ st'.kb.pages.rows, page.slug = "" := by
    have hmem : "" ∈ st'.kb.pages.rows.map Page.slug := by rw [hslugs]; exact List.mem_singleton_self ""
    exact List.mem_map.mp hmem
  exact (husable.pages_usable page hpage).1 hslug

end AdWiki.Wiki
