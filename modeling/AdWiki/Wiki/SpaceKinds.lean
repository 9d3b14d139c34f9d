import AdWiki.Wiki.PageTree
import AdWiki.Wiki.SpacesService

/-!
# Enabled kinds

A space says which kinds of entries it takes. Every service checks it where it puts an entry or a category into a space,
and no space switches a kind off that it has rows of. The update of a category that names a scope and no space is the one
that does not ask.

* `SpaceKinds`: the invariant; `SpaceKinds.entries`, `.spaces` and `.categories` keep it as one table changes.
* `spaceKinds_iff`: the runs in which it holds throughout.
* `spaceKinds_broken`: a category whose new scope its space does not take.
-/

namespace AdWiki.Wiki

open Access Fallible

/-- An entry of the kind is in the space, with the category. -/
inductive HasEntry (kb : KnowledgeBase) : KnowledgeKind → String → Option String → Prop
  | page {page : Page} (h : page ∈ kb.pages) : HasEntry kb .wiki page.spaceId page.categoryId
  | note {note : Note} {spaceId : String} (h : note ∈ kb.notes) (hspace : note.spaceId = some spaceId) :
    HasEntry kb .note spaceId note.categoryId
  | standard {standard : Standard} (h : standard ∈ kb.standards) :
    HasEntry kb .standard standard.spaceId standard.categoryId

/-- The space exists and takes the kind. -/
def Enabled (kb : KnowledgeBase) (spaceId : String) (kind : KnowledgeKind) : Prop :=
  ∃ space, kb.spaces.find spaceId = some space ∧ kind ∈ space.enabledKinds

/-- A category that is named exists, is for the kind, and lies in the space. -/
def InCategory (kb : KnowledgeBase) (kind : KnowledgeKind) (spaceId : String) (categoryId : Option String) : Prop :=
  ∀ id, categoryId = some id →
    ∃ category, kb.categories.find id = some category ∧ category.scope = kind ∧ category.spaceId = spaceId

/-- Every category and every entry lies in a space that takes its kind, and every entry with a category in a category
for its kind in the same space. -/
structure SpaceKinds (kb : KnowledgeBase) : Prop where
  category : ∀ category ∈ kb.categories, Enabled kb category.spaceId category.scope
  entry : ∀ kind spaceId categoryId, HasEntry kb kind spaceId categoryId →
    Enabled kb spaceId kind ∧ InCategory kb kind spaceId categoryId

variable {kb kb' : KnowledgeBase} {st st' : WikiState} {order : RowOrder} {slugify : String → String}
  {sameName : String → String → Bool} {kind : KnowledgeKind} {id spaceId : String} {categoryId : Option String}
  {actor : Option AuthenticatedUser} {c : Outside}

/-! ## One table changes -/

/-- Entries: each is an old one, or placed as the invariant wants it. -/
theorem SpaceKinds.entries (h : SpaceKinds kb) (hspaces : kb'.spaces = kb.spaces)
    (hcategories : kb'.categories = kb.categories)
    (hentries : ∀ kind spaceId categoryId, HasEntry kb' kind spaceId categoryId → HasEntry kb kind spaceId categoryId ∨
      Enabled kb spaceId kind ∧ InCategory kb kind spaceId categoryId) : SpaceKinds kb' := by
  have henabled : ∀ spaceId kind, Enabled kb spaceId kind → Enabled kb' spaceId kind := by
    intro spaceId kind hen
    unfold Enabled
    rwa [hspaces]
  have hin : ∀ kind spaceId categoryId, InCategory kb kind spaceId categoryId →
      InCategory kb' kind spaceId categoryId := by
    intro kind spaceId categoryId hc
    unfold InCategory
    rwa [hcategories]
  refine ⟨fun category hcategory => ?_, fun kind spaceId categoryId hentry => ?_⟩
  · exact henabled _ _ (h.category category (hcategories ▸ hcategory))
  · obtain ⟨hen, hc⟩ := (hentries kind spaceId categoryId hentry).elim (h.entry kind spaceId categoryId) id
    exact ⟨henabled _ _ hen, hin _ _ _ hc⟩

/-- There are rows of the kind in the space. -/
def Uses (kb : KnowledgeBase) (spaceId : String) (kind : KnowledgeKind) : Prop :=
  (∃ categoryId, HasEntry kb kind spaceId categoryId) ∨
    ∃ category ∈ kb.categories, category.spaceId = spaceId ∧ category.scope = kind

/-- Spaces: each takes the kinds that it is used for. -/
theorem SpaceKinds.spaces (h : SpaceKinds kb) {spaces : Table KnowledgeSpace.id}
    (hspaces : ∀ spaceId kind, Uses kb spaceId kind → Enabled kb spaceId kind →
      Enabled { kb with spaces := spaces } spaceId kind) :
    SpaceKinds { kb with spaces := spaces } := by
  refine ⟨fun category hcategory => ?_, fun kind spaceId categoryId hentry => ?_⟩
  · exact hspaces _ _ (Or.inr ⟨category, hcategory, rfl, rfl⟩) (h.category category hcategory)
  · have hentry' : HasEntry kb kind spaceId categoryId := by
      cases hentry with
      | page hpage => exact .page hpage
      | note hnote hspace => exact .note hnote hspace
      | standard hstandard => exact .standard hstandard
    obtain ⟨hen, hc⟩ := h.entry kind spaceId categoryId hentry'
    exact ⟨hspaces _ _ (Or.inl ⟨categoryId, hentry'⟩) hen, hc⟩

/-! ## What the checks say -/

theorem resolveOpenSpace_enabled {requested : Option String} (h : kb.resolveOpenSpace kind requested = .ok spaceId) :
    Enabled kb spaceId kind := by
  unfold KnowledgeBase.resolveOpenSpace at h
  split at h
  · cases h
  · next space hfind =>
    split at h
    · next hkind =>
      cases h
      exact ⟨space, by rw [(Table.find_eq_some.mp hfind).2, hfind], List.contains_iff_mem.mp hkind⟩
    · cases h

/-- A category that a check has found, of the scope, and a second check has compared with the space. -/
theorem inCategory_of_checks
    (hscope : ¬(categoryId.isSome ∧ ¬(categoryId.bind kb.categories.find).any fun category => category.scope == kind))
    (hspace : ¬((categoryId.bind kb.categories.find).any fun category => category.spaceId != spaceId)) :
    InCategory kb kind spaceId categoryId := by
  rintro id rfl
  rw [Option.bind_some] at hscope hspace
  cases hfind : kb.categories.find id with
  | none =>
    rw [hfind] at hscope
    simp at hscope
  | some category =>
    rw [hfind] at hscope hspace
    exact ⟨category, rfl, by simpa using hscope, by simpa using hspace⟩

theorem resolvePageSpace_placed {input : Assignment} {existing : Option Page}
    (h : kb.resolvePageSpace input existing = .ok spaceId) :
    Enabled kb spaceId .wiki ∧ InCategory kb .wiki spaceId (input.newCategoryId existing) := by
  unfold KnowledgeBase.resolvePageSpace at h
  obtain ⟨-, h⟩ := throwIf_bind_eq_ok.mp h
  obtain ⟨_, hscope, h⟩ := bind_eq_ok.mp h
  obtain ⟨-, h⟩ := throwIf_bind_eq_ok.mp h
  obtain ⟨resolved, hresolved, h⟩ := bind_eq_ok.mp h
  obtain ⟨hmatch, h⟩ := throwIf_bind_eq_ok.mp h
  obtain rfl := pure_eq_ok.mp h
  exact ⟨resolveOpenSpace_enabled hresolved,
    inCategory_of_checks (throwIf_eq_ok.mp hscope) fun hother => hmatch (Or.inl hother)⟩

/-- The space that an update of the page asks for. -/
def KnowledgeBase.requestedSpace (kb : KnowledgeBase) (input : Assignment) (page : Page) : String :=
  (input.spaceId.or <| (((input.newCategoryId (some page)).bind kb.categories.find).map Category.spaceId).or
    (((input.newParentId (some page)).bind kb.findLive).map Page.spaceId)).getD page.spaceId

theorem resolvePageSpace_requested {input : Assignment} {page : Page}
    (h : kb.resolvePageSpace input (some page) = .ok spaceId) :
    spaceId = kb.requestedSpace input page := by
  unfold KnowledgeBase.resolvePageSpace at h
  obtain ⟨-, h⟩ := throwIf_bind_eq_ok.mp h
  obtain ⟨_, -, h⟩ := bind_eq_ok.mp h
  obtain ⟨-, h⟩ := throwIf_bind_eq_ok.mp h
  obtain ⟨resolved, hresolved, h⟩ := bind_eq_ok.mp h
  obtain ⟨-, h⟩ := throwIf_bind_eq_ok.mp h
  obtain rfl := pure_eq_ok.mp h
  rw [(resolveOpenSpace_ok hresolved).1, KnowledgeBase.requestedSpace]
  cases input.spaceId with
  | some _ => rfl
  | none =>
    cases ((input.newCategoryId (some page)).bind kb.categories.find).map Category.spaceId with
    | some _ => rfl
    | none => cases ((input.newParentId (some page)).bind kb.findLive).map Page.spaceId <;> rfl

/-- A note gets the space that is requested, after the checks on it. -/
theorem resolveNotePlace_ok {requested place : Option String} (h : kb.resolveNotePlace categoryId requested = .ok place) :
    place = requested ∧ ∀ spaceId, place = some spaceId →
      Enabled kb spaceId .note ∧ InCategory kb .note spaceId categoryId := by
  unfold KnowledgeBase.resolveNotePlace at h
  obtain ⟨category, hcategory, h⟩ := bind_eq_ok.mp h
  obtain ⟨place', hresolved, h⟩ := bind_eq_ok.mp h
  obtain ⟨hmatch, h⟩ := throwIf_bind_eq_ok.mp h
  obtain rfl := pure_eq_ok.mp h
  cases requested with
  | none =>
    cases hresolved
    exact ⟨rfl, fun spaceId hspace => nomatch hspace⟩
  | some requested =>
    obtain ⟨resolved, hopen, rfl⟩ := map_eq_ok hresolved
    have hopen : kb.resolveOpenSpace .note (some requested) = .ok resolved := hopen
    refine ⟨congrArg some (resolveOpenSpace_ok hopen).1, fun spaceId hspace => ?_⟩
    obtain rfl : resolved = spaceId := Option.some.inj hspace
    refine ⟨resolveOpenSpace_enabled hopen, ?_⟩
    rintro id rfl
    obtain ⟨found, hfound, rfl⟩ := map_eq_ok hcategory
    unfold KnowledgeBase.ensureNoteCategory at hfound
    split at hfound
    · cases hfound
    · next category hfilter =>
      cases hfound
      obtain ⟨hfind, hscope⟩ := Option.filter_eq_some_iff.mp hfilter
      refine ⟨found, hfind, by simpa using hscope, ?_⟩
      simpa using hmatch

theorem standard_placed {requested fallback : Option String} {pageIds : List String}
    (hspace : kb.resolveStandardSpace requested categoryId pageIds fallback = .ok spaceId)
    (hrelations : kb.assertStandardSpaceRelations spaceId categoryId pageIds = .ok ()) :
    Enabled kb spaceId .standard ∧ InCategory kb .standard spaceId categoryId := by
  unfold KnowledgeBase.resolveStandardSpace at hspace
  obtain ⟨hscope, hspace⟩ := throwIf_bind_eq_ok.mp hspace
  unfold KnowledgeBase.assertStandardSpaceRelations at hrelations
  obtain ⟨hsame, -⟩ := throwIf_bind_eq_ok.mp hrelations
  exact ⟨resolveOpenSpace_enabled hspace, inCategory_of_checks hscope hsame⟩

/-! ## Entries -/

/-- A row that was there, or one that is placed as the invariant wants it. -/
def Placed (kb : KnowledgeBase) (kind : KnowledgeKind) (spaceId : String) (categoryId : Option String) : Prop :=
  HasEntry kb kind spaceId categoryId ∨ Enabled kb spaceId kind ∧ InCategory kb kind spaceId categoryId

theorem SpaceKinds.pages (h : SpaceKinds kb) {pages : Table Page.id}
    (hpages : ∀ page ∈ pages, Placed kb .wiki page.spaceId page.categoryId) : SpaceKinds { kb with pages := pages } := by
  refine h.entries rfl rfl fun kind spaceId categoryId hentry => ?_
  cases hentry with
  | page hpage => exact hpages _ hpage
  | note hnote hspace => exact Or.inl (.note hnote hspace)
  | standard hstandard => exact Or.inl (.standard hstandard)

theorem SpaceKinds.notes (h : SpaceKinds kb) {notes : Table Note.id}
    (hnotes : ∀ note ∈ notes, ∀ spaceId, note.spaceId = some spaceId → Placed kb .note spaceId note.categoryId) :
    SpaceKinds { kb with notes := notes } := by
  refine h.entries rfl rfl fun kind spaceId categoryId hentry => ?_
  cases hentry with
  | page hpage => exact Or.inl (.page hpage)
  | note hnote hspace => exact hnotes _ hnote _ hspace
  | standard hstandard => exact Or.inl (.standard hstandard)

theorem SpaceKinds.standards (h : SpaceKinds kb) {standards : Table Standard.id}
    (hstandards : ∀ standard ∈ standards, Placed kb .standard standard.spaceId standard.categoryId) :
    SpaceKinds { kb with standards := standards } := by
  refine h.entries rfl rfl fun kind spaceId categoryId hentry => ?_
  cases hentry with
  | page hpage => exact Or.inl (.page hpage)
  | note hnote hspace => exact Or.inl (.note hnote hspace)
  | standard hstandard => exact hstandards _ hstandard

theorem SpaceKinds.createPage {input : CreatePageInput} {authorId : String} (h : SpaceKinds st.kb)
    (hok : st.create order slugify id input authorId actor = .ok st') : SpaceKinds st'.kb := by
  unfold WikiState.create at hok
  obtain ⟨spaceId, hspace, hok⟩ := bind_eq_ok.mp hok
  obtain ⟨_, -, hok⟩ := bind_eq_ok.mp hok
  obtain ⟨-, hok⟩ := throwIf_bind_eq_ok.mp hok
  split at hok
  · cases hok
  · next pages hcreate =>
    cases pure_eq_ok.mp hok
    refine h.pages fun page hpage => ?_
    rcases (Table.mem_createMany hcreate).mp hpage with hold | hnew
    · exact Or.inl (.page hold)
    · obtain rfl := List.mem_singleton.mp hnew
      exact Or.inr (resolvePageSpace_placed hspace)

/-- An update writes the space that it has resolved, or leaves the page where it is. -/
theorem updatedSpace_placed {input : UpdatePageInput} {existing : Page} (hexisting : existing ∈ st.kb.pages)
    (hspace : st.updatedSpace order input existing actor = .ok spaceId) :
    Placed st.kb .wiki spaceId (input.categoryId.getD existing.categoryId) := by
  unfold WikiState.updatedSpace at hspace
  split at hspace
  · obtain ⟨resolved, hresolved, hspace⟩ := bind_eq_ok.mp hspace
    obtain ⟨_, -, hspace⟩ := bind_eq_ok.mp hspace
    obtain rfl := pure_eq_ok.mp hspace
    exact Or.inr (resolvePageSpace_placed hresolved)
  · next hunchanged =>
    cases hspace
    have hcategory : input.categoryId = none := by
      simp only [UpdatePageInput.assignmentChanged, Bool.or_eq_true, not_or, Bool.not_eq_true, Option.isSome_eq_false_iff,
        Option.isNone_iff_eq_none] at hunchanged
      exact hunchanged.1.2
    rw [hcategory]
    exact Or.inl (.page hexisting)

theorem SpaceKinds.updatePage {input : UpdatePageInput} {options : PageUpdateOptions} (h : SpaceKinds st.kb)
    (hok : st.update order id input options = .ok st') : SpaceKinds st'.kb := by
  unfold WikiState.update at hok
  split at hok
  · cases hok
  · next existing hfound =>
    obtain ⟨hmem, hid⟩ := Table.find_eq_some.mp (Option.filter_eq_some_iff.mp hfound).1
    obtain ⟨_, -, hok⟩ := bind_eq_ok.mp hok
    obtain ⟨-, hok⟩ := throwIf_bind_eq_ok.mp hok
    obtain ⟨spaceId, hspace, hok⟩ := bind_eq_ok.mp hok
    obtain ⟨-, hok⟩ := throwIf_bind_eq_ok.mp hok
    obtain ⟨-, hok⟩ := throwIf_bind_eq_ok.mp hok
    cases pure_eq_ok.mp hok
    refine h.pages fun page hpage => ?_
    obtain ⟨row, hrow, rfl⟩ := Table.mem_updateMany.mp hpage
    split
    · next hkey =>
      obtain rfl : row = existing := Rows.eq_of_key st.kb.pages.unique hrow hmem ((beq_iff_eq.mp hkey).trans hid.symm)
      exact updatedSpace_placed hrow hspace
    · exact Or.inl (.page hrow)

/-- Rows that stay where they are. -/
theorem SpaceKinds.movedPages (h : SpaceKinds kb) {pages : Table Page.id} (hpages : ∀ page ∈ pages, ∃ old ∈ kb.pages,
    page.spaceId = old.spaceId ∧ page.categoryId = old.categoryId) : SpaceKinds { kb with pages := pages } := by
  refine h.pages fun page hpage => ?_
  obtain ⟨old, hold, hspace, hcategory⟩ := hpages page hpage
  rw [hspace, hcategory]
  exact Or.inl (.page hold)

theorem samePlace_updateMany {pages : Table Page.id} {p : Page → Bool} {f : Page → Page} {hf : ∀ r, (f r).id = r.id}
    {page : Page} (hpage : page ∈ pages.updateMany p f hf)
    (hplace : ∀ r, (f r).spaceId = r.spaceId ∧ (f r).categoryId = r.categoryId) :
    ∃ old ∈ pages, page.spaceId = old.spaceId ∧ page.categoryId = old.categoryId := by
  obtain ⟨old, hold, rfl⟩ := Table.mem_updateMany.mp hpage
  refine ⟨old, hold, ?_⟩
  split
  · exact hplace old
  · exact ⟨rfl, rfl⟩

theorem SpaceKinds.removePage {deletedById : String} {now : Time} (h : SpaceKinds st.kb)
    (hok : st.remove order id deletedById now actor = .ok st') : SpaceKinds st'.kb := by
  unfold WikiState.remove at hok
  split at hok
  · cases hok
  · obtain ⟨_, -, hok⟩ := bind_eq_ok.mp hok
    obtain ⟨_, -, hok⟩ := bind_eq_ok.mp hok
    obtain ⟨-, hok⟩ := throwIf_bind_eq_ok.mp hok
    cases pure_eq_ok.mp hok
    refine h.movedPages fun page hpage => ?_
    obtain ⟨moved, hmoved, hspace, hcategory⟩ := samePlace_updateMany hpage fun _ => ⟨rfl, rfl⟩
    split at hmoved
    · obtain ⟨old, hold, hspace', hcategory'⟩ := samePlace_updateMany hmoved fun _ => ⟨rfl, rfl⟩
      exact ⟨old, hold, hspace.trans hspace', hcategory.trans hcategory'⟩
    · exact ⟨moved, hmoved, hspace, hcategory⟩

theorem SpaceKinds.restorePage (h : SpaceKinds st.kb) (hok : st.restore order id actor = .ok st') :
    SpaceKinds st'.kb := by
  unfold WikiState.restore at hok
  split at hok
  · cases hok
  · obtain ⟨_, -, hok⟩ := bind_eq_ok.mp hok
    cases pure_eq_ok.mp hok
    exact h.movedPages fun page hpage => samePlace_updateMany hpage fun _ => ⟨rfl, rfl⟩

theorem SpaceKinds.permanentRemovePage (h : SpaceKinds st.kb) (hok : st.permanentRemove order id actor = .ok st') :
    SpaceKinds st'.kb := by
  unfold WikiState.permanentRemove at hok
  split at hok
  · cases hok
  · obtain ⟨_, -, hok⟩ := bind_eq_ok.mp hok
    cases pure_eq_ok.mp hok
    refine h.movedPages fun page hpage => ?_
    rw [WikiState.withoutPage] at hpage
    obtain ⟨old, hold, hspace, hcategory⟩ := samePlace_updateMany hpage fun _ => ⟨rfl, rfl⟩
    exact ⟨old, (Table.mem_deleteMany.mp hold).1, hspace, hcategory⟩

theorem SpaceKinds.createNote {input : CreateNoteInput} {ownerId : String} (h : SpaceKinds st.kb)
    (hok : st.createNote order input ownerId actor c = .ok st') : SpaceKinds st'.kb := by
  unfold WikiState.createNote at hok
  obtain ⟨place, hplace, hok⟩ := bind_eq_ok.mp hok
  obtain ⟨_, -, hok⟩ := bind_eq_ok.mp hok
  obtain ⟨_, -, hok⟩ := bind_eq_ok.mp hok
  obtain ⟨-, hok⟩ := throwIf_bind_eq_ok.mp hok
  split at hok
  · cases hok
  · next notes hcreate =>
    cases pure_eq_ok.mp hok
    refine h.notes fun note hnote spaceId hspace => ?_
    rcases (Table.mem_createMany hcreate).mp hnote with hold | hnew
    · exact Or.inl (.note hold hspace)
    · obtain rfl := List.mem_singleton.mp hnew
      exact Or.inr ((resolveNotePlace_ok hplace).2 spaceId hspace)

theorem findEditable_mem {userId : String} {note : Note} (h : st.findEditable order id userId actor c = .ok note) :
    note ∈ st.kb.notes ∧ note.id = id := by
  unfold WikiState.findEditable at h
  obtain ⟨_, -, h⟩ := bind_eq_ok.mp h
  split at h
  · split at h
    · cases h
    · next found hfind =>
      obtain ⟨_, -, h⟩ := bind_eq_ok.mp h
      cases pure_eq_ok.mp h
      exact Table.find_eq_some.mp hfind
  · dsimp only at h
    split at h
    · cases h
    · next found hfind =>
      cases pure_eq_ok.mp h
      exact Table.find_eq_some.mp (Option.filter_eq_some_iff.mp hfind).1

theorem SpaceKinds.updateNote {input : UpdateNoteInput} {userId : String} (h : SpaceKinds st.kb)
    (hok : st.updateNote order id input userId actor c = .ok st') : SpaceKinds st'.kb := by
  unfold WikiState.updateNote at hok
  obtain ⟨existing, hexisting, hok⟩ := bind_eq_ok.mp hok
  obtain ⟨place, hplace, hok⟩ := bind_eq_ok.mp hok
  obtain ⟨-, hok⟩ := throwIf_bind_eq_ok.mp hok
  obtain ⟨_, -, hok⟩ := bind_eq_ok.mp hok
  cases pure_eq_ok.mp hok
  obtain ⟨hmem, hid⟩ := findEditable_mem hexisting
  refine h.notes fun note hnote spaceId hspace => ?_
  obtain ⟨row, hrow, rfl⟩ := Table.mem_updateMany.mp hnote
  split at hspace
  · next hkey =>
    obtain rfl : row = existing := Rows.eq_of_key st.kb.notes.unique hrow hmem ((beq_iff_eq.mp hkey).trans hid.symm)
    rw [if_pos hkey]
    obtain ⟨hrequested, hplaced⟩ := resolveNotePlace_ok hplace
    refine Or.inr (hplaced spaceId ?_)
    unfold Note.write at hspace
    cases hinput : input.spaceId with
    | none =>
      rw [hinput] at hspace hrequested
      exact hrequested.trans hspace
    | some requested =>
      rw [hinput] at hspace
      exact hspace
  · next hkey =>
    rw [if_neg hkey]
    exact Or.inl (.note hrow hspace)

theorem SpaceKinds.createStandard {input : Standards.CreateStandardInput} {userId : String} (h : SpaceKinds st.kb)
    (hok : st.createStandard order input userId actor c = .ok st') : SpaceKinds st'.kb := by
  unfold WikiState.createStandard at hok
  obtain ⟨spaceId, hspace, hok⟩ := bind_eq_ok.mp hok
  obtain ⟨_, -, hok⟩ := bind_eq_ok.mp hok
  obtain ⟨_, -, hok⟩ := bind_eq_ok.mp hok
  obtain ⟨_, -, hok⟩ := bind_eq_ok.mp hok
  obtain ⟨_, hrelations, hok⟩ := bind_eq_ok.mp hok
  obtain ⟨_, -, hok⟩ := bind_eq_ok.mp hok
  obtain ⟨-, hok⟩ := throwIf_bind_eq_ok.mp hok
  split at hok
  · cases hok
  · next standards hcreate =>
    cases pure_eq_ok.mp hok
    refine h.standards fun standard hstandard => ?_
    rcases (Table.mem_createMany hcreate).mp hstandard with hold | hnew
    · exact Or.inl (.standard hold)
    · obtain rfl := List.mem_singleton.mp hnew
      exact Or.inr (standard_placed hspace hrelations)

theorem SpaceKinds.updateStandard {input : Standards.UpdateStandardInput} {details : StandardDetails}
    (h : SpaceKinds st.kb) (hok : st.updateStandard order id input actor c details = .ok st') : SpaceKinds st'.kb := by
  unfold WikiState.updateStandard at hok
  obtain ⟨_, -, hok⟩ := bind_eq_ok.mp hok
  split at hok
  · cases hok
  · next existing hfind =>
    obtain ⟨hmem, hid⟩ := Table.find_eq_some.mp hfind
    obtain ⟨-, hok⟩ := throwIf_bind_eq_ok.mp hok
    obtain ⟨-, hok⟩ := throwIf_bind_eq_ok.mp hok
    split at hok
    · cases pure_eq_ok.mp hok
      exact h
    · obtain ⟨spaceId, hspace, hok⟩ := bind_eq_ok.mp hok
      obtain ⟨_, -, hok⟩ := bind_eq_ok.mp hok
      obtain ⟨_, hrelations, hok⟩ := bind_eq_ok.mp hok
      obtain ⟨_, -, hok⟩ := bind_eq_ok.mp hok
      obtain ⟨_, -, hok⟩ := bind_eq_ok.mp hok
      cases pure_eq_ok.mp hok
      refine h.standards fun standard hstandard => ?_
      obtain ⟨row, hrow, rfl⟩ := Table.mem_updateMany.mp hstandard
      split
      · next hkey =>
        obtain rfl : row = existing :=
          Rows.eq_of_key st.kb.standards.unique hrow hmem ((beq_iff_eq.mp hkey).trans hid.symm)
        exact Or.inr (standard_placed hspace hrelations)
      · exact Or.inl (.standard hrow)

/-! ## Spaces -/

theorem kindCount_pos (h : Uses kb spaceId kind) : 0 < kb.kindCount spaceId kind := by
  rcases h with ⟨categoryId, hentry⟩ | ⟨category, hcategory, rfl, rfl⟩
  · cases hentry with
    | @page page hpage =>
      have hpos : 0 < kb.pages.rows.countP fun row => row.spaceId == page.spaceId :=
        List.countP_pos_iff.mpr ⟨page, hpage, by simp⟩
      exact Nat.add_pos_left hpos _
    | @note note _ hnote hspace =>
      have hpos : 0 < kb.notes.rows.countP fun row => row.spaceId == some spaceId :=
        List.countP_pos_iff.mpr ⟨note, hnote, by simp [hspace]⟩
      exact Nat.add_pos_left hpos _
    | @standard standard hstandard =>
      have hpos : 0 < kb.standards.rows.countP fun row => row.spaceId == standard.spaceId :=
        List.countP_pos_iff.mpr ⟨standard, hstandard, by simp⟩
      exact Nat.add_pos_left hpos _
  · have hpos : 0 < kb.categories.rows.countP fun row => row.spaceId == category.spaceId && row.scope == category.scope :=
      List.countP_pos_iff.mpr ⟨category, hcategory, by simp⟩
    unfold KnowledgeBase.kindCount
    split
    · next hscope =>
      rw [hscope] at hpos
      omega
    · next hscope =>
      rw [hscope] at hpos
      omega
    · next hscope =>
      rw [hscope] at hpos
      omega

/-- No kind that is used is switched off. -/
theorem assertKindsMayBeDisabled_ok {enabledKinds : List KnowledgeKind}
    (hok : kb.assertKindsMayBeDisabled spaceId enabledKinds = .ok ()) (h : Uses kb spaceId kind) :
    kind ∈ enabledKinds := by
  have hall := throwIf_eq_ok.mp hok
  rw [not_not, List.all_eq_true] at hall
  have hkind := hall kind (by cases kind <;> simp)
  have hpos := kindCount_pos h
  rw [Bool.or_eq_true, List.contains_iff_mem, beq_iff_eq] at hkind
  exact hkind.resolve_right (by omega)

theorem createOwnerRules_kb {userId : String} {newId : Action → String} :
    (st.createOwnerRules spaceId userId newId).kb = st.kb := by
  unfold WikiState.createOwnerRules WikiState.kb
  rfl

theorem restrictTo_kb {restricted : Bool} {newId : Action → String} :
    (st.restrictTo actor spaceId restricted newId).kb = st.kb := by
  unfold WikiState.restrictTo
  split
  · split
    · exact createOwnerRules_kb
    · rfl
  · rfl

theorem SpaceKinds.createSpace {input : CreateKnowledgeSpaceInput} {newId : Action → String} (h : SpaceKinds st.kb)
    (hok : st.createSpace sameName input actor c newId = .ok st') : SpaceKinds st'.kb := by
  unfold WikiState.createSpace at hok
  obtain ⟨-, hok⟩ := throwIf_bind_eq_ok.mp hok
  obtain ⟨_, -, hok⟩ := bind_eq_ok.mp hok
  obtain ⟨_, -, hok⟩ := bind_eq_ok.mp hok
  dsimp only at hok
  split at hok
  · cases hok
  · next spaces hcreate =>
    cases pure_eq_ok.mp hok
    rw [restrictTo_kb]
    refine h.spaces fun spaceId kind _ hen => ?_
    obtain ⟨space, hfind, hkind⟩ := hen
    exact ⟨space, by rw [Table.find_createMany hcreate, hfind, Option.some_or], hkind⟩

theorem SpaceKinds.updateSpace {input : UpdateKnowledgeSpaceInput} {newId : Action → String} (h : SpaceKinds st.kb)
    (hok : st.updateSpace order sameName id input actor c newId = .ok st') : SpaceKinds st'.kb := by
  unfold WikiState.updateSpace at hok
  obtain ⟨_, -, hok⟩ := bind_eq_ok.mp hok
  split at hok
  · cases hok
  · next existing hfound =>
    obtain ⟨_, -, hok⟩ := bind_eq_ok.mp hok
    obtain ⟨_, -, hok⟩ := bind_eq_ok.mp hok
    obtain ⟨_, hkinds, hok⟩ := bind_eq_ok.mp hok
    obtain ⟨-, hok⟩ := throwIf_bind_eq_ok.mp hok
    cases pure_eq_ok.mp hok
    rw [restrictTo_kb]
    refine h.spaces fun spaceId kind huses hen => ?_
    obtain ⟨space, hfind, hkind⟩ := hen
    refine ⟨if space.id == id then space.write input else space, ?_, ?_⟩
    · show (st.kb.spaces.updateMany (fun row => row.id == id) (KnowledgeSpace.write input)
        fun _ => KnowledgeSpace.write_id).find spaceId = _
      rw [Table.find_updateMany, hfind, Option.map_some]
    split
    · next hkey =>
      have hid : id = spaceId := (beq_iff_eq.mp hkey).symm.trans (Table.find_eq_some.mp hfind).2
      show kind ∈ input.enabledKinds.getD space.enabledKinds
      cases hinput : input.enabledKinds with
      | none => exact hkind
      | some enabledKinds =>
        rw [hinput] at hkinds
        exact assertKindsMayBeDisabled_ok hkinds (hid ▸ huses)
    · exact hkind

/-! ## Categories -/

/-- Categories: each is placed, and an entry keeps its category, or loses it. -/
theorem SpaceKinds.categories (h : SpaceKinds kb) (hspaces : kb'.spaces = kb.spaces)
    (hcategories : ∀ category ∈ kb'.categories, Enabled kb category.spaceId category.scope)
    (hentries : ∀ kind spaceId categoryId, HasEntry kb' kind spaceId categoryId → ∃ old, HasEntry kb kind spaceId old ∧
      (InCategory kb kind spaceId old → InCategory kb' kind spaceId categoryId)) : SpaceKinds kb' := by
  have henabled : ∀ spaceId kind, Enabled kb spaceId kind → Enabled kb' spaceId kind := by
    intro spaceId kind hen
    unfold Enabled
    rwa [hspaces]
  refine ⟨fun category hcategory => henabled _ _ (hcategories category hcategory),
    fun kind spaceId categoryId hentry => ?_⟩
  obtain ⟨old, hold, hin⟩ := hentries kind spaceId categoryId hentry
  obtain ⟨hen, hc⟩ := h.entry kind spaceId old hold
  exact ⟨henabled _ _ hen, hin hc⟩

theorem hasEntry_categories {categories : Table Category.id}
    (h : HasEntry { kb with categories := categories } kind spaceId categoryId) :
    HasEntry kb kind spaceId categoryId := by
  cases h with
  | page hpage => exact .page hpage
  | note hnote hspace => exact .note hnote hspace
  | standard hstandard => exact .standard hstandard

theorem SpaceKinds.createCategory {input : CreateCategoryInput} (h : SpaceKinds st.kb)
    (hok : st.createCategory order slugify input actor c = .ok st') : SpaceKinds st'.kb := by
  unfold WikiState.createCategory at hok
  obtain ⟨spaceId, hspace, hok⟩ := bind_eq_ok.mp hok
  obtain ⟨_, -, hok⟩ := bind_eq_ok.mp hok
  obtain ⟨-, hok⟩ := throwIf_bind_eq_ok.mp hok
  split at hok
  · cases hok
  · next categories hcreate =>
    cases pure_eq_ok.mp hok
    refine h.categories rfl (fun category hcategory => ?_) fun kind spaceId categoryId hentry =>
      ⟨categoryId, hasEntry_categories hentry, fun hin x hx => ?_⟩
    · rcases (Table.mem_createMany hcreate).mp hcategory with hold | hnew
      · exact h.category category hold
      · obtain rfl := List.mem_singleton.mp hnew
        exact resolveOpenSpace_enabled hspace
    · obtain ⟨category, hfind, hplace⟩ := hin x hx
      refine ⟨category, ?_, hplace⟩
      show Table.find categories x = some category
      rw [Table.find_createMany hcreate, hfind, Option.some_or]

theorem categoryUses_pos (h : HasEntry st.kb kind spaceId (some id)) : 0 < st.categoryUses id := by
  generalize hcategory : some id = categoryId at h
  unfold WikiState.categoryUses
  cases h with
  | @page page hpage =>
    have hpos : 0 < st.kb.pages.rows.countP fun row => row.categoryId == some id :=
      List.countP_pos_iff.mpr ⟨page, hpage, by simp [hcategory]⟩
    omega
  | @note note _ hnote _ =>
    have hpos : 0 < st.kb.notes.rows.countP fun row => row.categoryId == some id :=
      List.countP_pos_iff.mpr ⟨note, hnote, by simp [hcategory]⟩
    omega
  | @standard standard hstandard =>
    have hpos : 0 < st.kb.standards.rows.countP fun row => row.categoryId == some id :=
      List.countP_pos_iff.mpr ⟨standard, hstandard, by simp [hcategory]⟩
    omega

/-- A category gets a new scope and keeps its space: the space takes that scope too. -/
def scopeStaysEnabled (kb : KnowledgeBase) (id : String) (input : UpdateCategoryInput) : Bool :=
  match kb.categories.find id, input.scope, input.spaceId with
  | some existing, some scope, none => (kb.spaces.find existing.spaceId).any fun space =>
    space.enabledKinds.contains scope
  | _, _, _ => true

/-- What an update of a category writes. -/
theorem updateCategory_written {input : UpdateCategoryInput}
    (hok : st.updateCategory order slugify id input actor = .ok st') :
    ∃ existing spaceId slug, st.kb.categories.find id = some existing ∧
      (match input.spaceId with
        | none => spaceId = existing.spaceId
        | some _ => Enabled st.kb spaceId (input.scope.getD existing.scope)) ∧
      (0 < st.categoryUses id → spaceId = existing.spaceId ∧ input.scope.getD existing.scope = existing.scope) ∧
      st'.kb = { st.kb with categories :=
        (st.kb.categories.updateMany (fun row => row.id == id) (Category.write input spaceId slug) fun _ =>
          Category.write_id) } := by
  unfold WikiState.updateCategory at hok
  split at hok
  · cases hok
  · next existing hfound =>
    obtain ⟨_, -, hok⟩ := bind_eq_ok.mp hok
    obtain ⟨spaceId, hspace, hok⟩ := bind_eq_ok.mp hok
    obtain ⟨hunused, hok⟩ := throwIf_bind_eq_ok.mp hok
    obtain ⟨-, hok⟩ := throwIf_bind_eq_ok.mp hok
    cases pure_eq_ok.mp hok
    refine ⟨existing, spaceId, _, hfound, ?_, fun huses => ⟨?_, ?_⟩, rfl⟩
    · unfold WikiState.updatedCategorySpace at hspace
      cases hrequest : input.spaceId with
      | none =>
        rw [hrequest] at hspace
        cases hspace
        rfl
      | some requested =>
        rw [hrequest] at hspace
        obtain ⟨resolved, hresolved, hspace⟩ := bind_eq_ok.mp hspace
        have hsame : resolved = spaceId := by
          split at hspace
          · obtain ⟨_, -, hspace⟩ := bind_eq_ok.mp hspace
            exact pure_eq_ok.mp hspace
          · exact pure_eq_ok.mp hspace
        exact hsame ▸ resolveOpenSpace_enabled hresolved
    · by_contra hne
      exact hunused ⟨Or.inr hne, huses⟩
    · by_contra hne
      refine hunused ⟨Or.inl ?_, huses⟩
      cases hscope : input.scope with
      | none =>
        rw [hscope] at hne
        exact absurd rfl hne
      | some scope =>
        rw [hscope] at hne
        simpa using hne

theorem updateCategory_spaceKinds {input : UpdateCategoryInput} (h : SpaceKinds st.kb)
    (hok : st.updateCategory order slugify id input actor = .ok st') :
    scopeStaysEnabled st.kb id input = true ↔ SpaceKinds st'.kb := by
  obtain ⟨existing, spaceId, slug, hfound, hspace, hused, hkb⟩ := updateCategory_written hok
  obtain ⟨hmem, hid⟩ := Table.find_eq_some.mp hfound
  have hfind : ∀ x, st'.kb.categories.find x = (st.kb.categories.find x).map fun row =>
      if row.id == id then row.write input spaceId slug else row := by
    intro x
    rw [hkb]
    show (st.kb.categories.updateMany (fun row => row.id == id) (Category.write input spaceId slug)
      fun _ => Category.write_id).find x = _
    rw [Table.find_updateMany]
  have henabled : ∀ spaceId kind, Enabled st'.kb spaceId kind ↔ Enabled st.kb spaceId kind := by
    intro spaceId kind
    unfold Enabled
    rw [hkb]
  have hwritten : existing.write input spaceId slug ∈ st'.kb.categories := by
    have hrow := hfind id
    rw [hfound, Option.map_some, if_pos (beq_iff_eq.mpr hid)] at hrow
    exact (Table.find_eq_some.mp hrow).1
  -- the invariant holds exactly if the row that is written is placed
  have hiff : SpaceKinds st'.kb ↔ Enabled st.kb spaceId (input.scope.getD existing.scope) := by
    constructor
    · intro h'
      exact (henabled _ _).mp (h'.category _ hwritten)
    · intro hen
      refine h.categories (by rw [hkb]) (fun category hcategory => ?_) fun kind s categoryId hentry => ?_
      · have hrow := Table.find_of_mem hcategory
        rw [hfind] at hrow
        obtain ⟨row, hrow, heq⟩ := Option.map_eq_some_iff.mp hrow
        obtain ⟨hrowMem, -⟩ := Table.find_eq_some.mp hrow
        split at heq
        · next hkey =>
          obtain rfl : row = existing :=
            Rows.eq_of_key st.kb.categories.unique hrowMem hmem ((beq_iff_eq.mp hkey).trans hid.symm)
          rw [← heq]
          exact hen
        · rw [← heq]
          exact h.category row hrowMem
      · rw [hkb] at hentry
        have hold : HasEntry st.kb kind s categoryId := hasEntry_categories hentry
        refine ⟨categoryId, hold, fun hin x hx => ?_⟩
        obtain ⟨category, hcategory, hscope, hplace⟩ := hin x hx
        refine ⟨_, by rw [hfind, hcategory, Option.map_some], ?_⟩
        split
        · next hkey =>
          -- the entry uses the category, which therefore stays as it is
          have hx' : x = id := (Table.find_eq_some.mp hcategory).2.symm.trans (beq_iff_eq.mp hkey)
          subst hx hx'
          obtain rfl : existing = category := Option.some.inj (hfound.symm.trans hcategory)
          obtain ⟨hsameSpace, hsameScope⟩ := hused (categoryUses_pos hold)
          exact ⟨hsameScope.trans hscope, hsameSpace.trans hplace⟩
        · exact ⟨hscope, hplace⟩
  rw [hiff]
  unfold scopeStaysEnabled
  rw [hfound]
  cases hrequested : input.spaceId with
  | some requested =>
    rw [hrequested] at hspace
    have hspace : Enabled st.kb spaceId (input.scope.getD existing.scope) := hspace
    cases hscope : input.scope with
    | none => exact ⟨fun _ => hscope ▸ hspace, fun _ => rfl⟩
    | some scope => exact ⟨fun _ => hscope ▸ hspace, fun _ => rfl⟩
  | none =>
    rw [hrequested] at hspace
    have hspace : spaceId = existing.spaceId := hspace
    rw [hspace]
    cases input.scope with
    | none => exact ⟨fun _ => h.category existing hmem, fun _ => rfl⟩
    | some scope =>
      simp only [Option.getD_some, Option.any_eq_true, List.contains_iff_mem]
      rfl

theorem SpaceKinds.removeCategory (h : SpaceKinds st.kb) (hok : st.removeCategory order id actor = .ok st') :
    SpaceKinds st'.kb := by
  unfold WikiState.removeCategory at hok
  split at hok
  · cases hok
  · obtain ⟨_, -, hok⟩ := bind_eq_ok.mp hok
    obtain ⟨_, -, hok⟩ := bind_eq_ok.mp hok
    cases pure_eq_ok.mp hok
    show SpaceKinds (WikiState.withoutCategory st.kb id)
    have hkept : ∀ {kind spaceId old}, old ≠ some id → InCategory st.kb kind spaceId old →
        InCategory (WikiState.withoutCategory st.kb id) kind spaceId old := by
      intro kind spaceId old hne hin x hx
      obtain ⟨category, hcategory, hplace⟩ := hin x hx
      refine ⟨category, ?_, hplace⟩
      have hid : category.id ≠ id := fun heq => hne (by rw [hx, ← (Table.find_eq_some.mp hcategory).2, heq])
      show (st.kb.categories.deleteMany fun row => row.id == id).find x = some category
      rw [Table.find_deleteMany, hcategory, Option.filter_some, if_pos (by simpa using hid)]
    have hnone : ∀ {kind spaceId}, InCategory (WikiState.withoutCategory st.kb id) kind spaceId none :=
      fun x hx => nomatch hx
    refine h.categories rfl (fun category hcategory => h.category category (Table.mem_deleteMany.mp hcategory).1) ?_
    intro kind spaceId categoryId hentry
    cases hentry with
    | page hpage =>
      unfold WikiState.withoutCategory at hpage
      rw [Table.mem_updateMany] at hpage
      obtain ⟨old, hold, rfl⟩ := hpage
      split
      · exact ⟨old.categoryId, .page hold, fun _ => hnone⟩
      · next hkey => exact ⟨old.categoryId, .page hold, hkept (by simpa using hkey)⟩
    | note hnote hspace =>
      unfold WikiState.withoutCategory at hnote
      rw [Table.mem_updateMany] at hnote
      obtain ⟨old, hold, rfl⟩ := hnote
      split at hspace
      · next hkey =>
        rw [if_pos hkey]
        exact ⟨old.categoryId, .note hold hspace, fun _ => hnone⟩
      · next hkey =>
        rw [if_neg hkey]
        exact ⟨old.categoryId, .note hold hspace, hkept (by simpa using hkey)⟩
    | standard hstandard =>
      unfold WikiState.withoutCategory at hstandard
      rw [Table.mem_updateMany] at hstandard
      obtain ⟨old, hold, rfl⟩ := hstandard
      split
      · exact ⟨old.categoryId, .standard hold, fun _ => hnone⟩
      · next hkey => exact ⟨old.categoryId, .standard hold, hkept (by simpa using hkey)⟩

/-! ## Runs -/

/-- No category gets a scope that its space does not take. -/
def keepsKinds (st : WikiState) : SpaceCall → Bool
  | .wiki (.updateCategory id input _) => scopeStaysEnabled st.kb id input
  | _ => true

theorem spaceStep_ok {call : RowOrder × SpaceCall} (hstep : st.spaceStep slugify sameName call = some st') :
    st.performSpace slugify sameName call.1 call.2 = .ok st' := by
  unfold WikiState.spaceStep at hstep
  cases hrun : st.performSpace slugify sameName call.1 call.2 with
  | error e =>
    rw [hrun] at hstep
    cases hstep
  | ok t =>
    rw [hrun] at hstep
    cases hstep
    rfl

theorem spaceStep_spaceKinds {call : RowOrder × SpaceCall} (h : SpaceKinds st.kb)
    (hstep : st.spaceStep slugify sameName call = some st') : keepsKinds st call.2 = true ↔ SpaceKinds st'.kb := by
  obtain ⟨order, call⟩ := call
  have hok : st.performSpace slugify sameName order call = .ok st' := spaceStep_ok hstep
  cases call with
  | wiki call =>
    cases call with
    | create id input authorId actor => exact iff_of_true rfl (h.createPage hok)
    | update id input options => exact iff_of_true rfl (h.updatePage hok)
    | remove id deletedById now actor => exact iff_of_true rfl (h.removePage hok)
    | restore id actor => exact iff_of_true rfl (h.restorePage hok)
    | permanentRemove id actor => exact iff_of_true rfl (h.permanentRemovePage hok)
    | updateCategory id input actor => exact updateCategory_spaceKinds h hok
    | removeCategory id actor => exact iff_of_true rfl (h.removeCategory hok)
  | createSpace input actor c newId => exact iff_of_true rfl (h.createSpace hok)
  | updateSpace id input actor c newId => exact iff_of_true rfl (h.updateSpace hok)
  | createCategory input actor c => exact iff_of_true rfl (h.createCategory hok)
  | createNote input ownerId actor c => exact iff_of_true rfl (h.createNote hok)
  | updateNote id input userId actor c => exact iff_of_true rfl (h.updateNote hok)
  | createStandard input userId actor c => exact iff_of_true rfl (h.createStandard hok)
  | updateStandard id input actor c details => exact iff_of_true rfl (h.updateStandard hok)

/-- **Everything stays where its kind is enabled exactly in the runs in which no update gives a category a scope that its
space does not take.** -/
theorem spaceKinds_iff {calls : List (RowOrder × SpaceCall)} (hs : SpaceKinds st.kb)
    (hrun : Runs.run (WikiState.spaceStep slugify sameName) st calls = some st') :
    Runs.Throughout (WikiState.spaceStep slugify sameName) (fun t => SpaceKinds t.kb) st calls ↔
      Runs.Along (WikiState.spaceStep slugify sameName) (fun t call => keepsKinds t call.2 = true) st calls :=
  Runs.throughout_iff_along (I := fun t => SpaceKinds t.kb) (fun _ _ _ h hstep => spaceStep_spaceKinds h hstep) hs hrun

/-! ## A new scope -/

namespace KindsDemo

def slug (title : String) : String := title

def outside (id : String) : Outside := ⟨none, id⟩

def enableNotes : RowOrder × SpaceCall :=
  (.stored, .updateSpace defaultSpaceId ⟨none, none, some [.wiki, .note]⟩ (some TreeDemo.admin) (outside "") fun _ => "")

/-- `PATCH /categories/guides` with a scope alone. -/
def forNotes : RowOrder × SpaceCall :=
  (.stored, .wiki (.updateCategory "guides" ⟨none, none, some .note, none, none, none⟩ (some TreeDemo.admin)))

/-- Some category is in a space that does not take its scope. -/
def stranded (kb : KnowledgeBase) : Bool :=
  kb.categories.rows.any fun category =>
    (kb.spaces.find category.spaceId).all fun space => !space.enabledKinds.contains category.scope

end KindsDemo

theorem spaceKinds_start : SpaceKinds TreeDemo.start.kb := by
  refine ⟨fun category hcategory => ?_, fun kind spaceId categoryId hentry => ?_⟩
  · obtain rfl := List.mem_singleton.mp hcategory
    exact ⟨⟨defaultSpaceId, "Wiki", .opened, [.wiki]⟩, by decide +kernel, List.mem_singleton_self _⟩
  · cases hentry with
    | page hpage => cases hpage
    | note hnote _ => cases hnote
    | standard hstandard => cases hstandard

/-- The space is opened for notes before. -/
theorem spaceKinds_iff_notes : ∃ st', Runs.run (WikiState.spaceStep KindsDemo.slug (· == ·)) TreeDemo.start
      [KindsDemo.enableNotes, KindsDemo.forNotes] = some st' ∧
    Runs.Throughout (WikiState.spaceStep KindsDemo.slug (· == ·)) (fun t => SpaceKinds t.kb) TreeDemo.start
      [KindsDemo.enableNotes, KindsDemo.forNotes] := by
  have hrun : (Runs.run (WikiState.spaceStep KindsDemo.slug (· == ·)) TreeDemo.start
      [KindsDemo.enableNotes, KindsDemo.forNotes]).isSome := by decide +kernel
  obtain ⟨st', hrun⟩ := Option.isSome_iff_exists.mp hrun
  exact ⟨st', hrun, (spaceKinds_iff spaceKinds_start hrun).mpr (by decide +kernel)⟩

theorem not_spaceKinds_of_stranded {kb : KnowledgeBase} (h : KindsDemo.stranded kb = true) : ¬SpaceKinds kb := by
  intro hs
  obtain ⟨category, hcategory, hnot⟩ := List.any_eq_true.mp h
  obtain ⟨space, hfind, hkind⟩ := hs.category category hcategory
  rw [hfind, Option.all_some, Bool.not_eq_true', ← Bool.not_eq_true, List.contains_iff_mem] at hnot
  exact hnot hkind

/-- The space takes wiki pages only, and the category becomes one for notes. -/
theorem spaceKinds_broken :
    ∃ st', Runs.run (WikiState.spaceStep KindsDemo.slug (· == ·)) TreeDemo.start [KindsDemo.forNotes] = some st' ∧
    SpaceKinds TreeDemo.start.kb ∧ ¬SpaceKinds st'.kb := by
  have hrun : (Runs.run (WikiState.spaceStep KindsDemo.slug (· == ·)) TreeDemo.start [KindsDemo.forNotes]).any
      fun st' => KindsDemo.stranded st'.kb := by decide +kernel
  obtain ⟨st', hrun, hstranded⟩ := (Option.any_eq_true _ _).mp hrun
  exact ⟨st', hrun, spaceKinds_start, not_spaceKinds_of_stranded hstranded⟩

end AdWiki.Wiki
