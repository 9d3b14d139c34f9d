import AdWiki.Web.SidebarTree

/-!
# The tree in the sidebar and the tree on the server

* `Arranged`: the layouts that the sidebar has.
* `Mirrors`: the tree in the sidebar is the live tree of the server.
* `buildState_mirrors`: it is after the categories have been loaded.
-/

namespace AdWiki.Web

open Access Wiki Containers

variable {items : Items} {cats : List SidebarCategory} {st : WikiState} {c : Container} {x f catId : String}

/-- Every item is in one container, of a kind that is for its type, and the folders in the lists have their boxes. -/
structure Arranged (items : Items) (itemMeta : OrderedMap String ItemType) : Prop where
  apart : Apart items
  target : ∀ c x, Holds items c x → isValidTarget (itemMeta.get? x) c = true
  box : ∀ f, (items.get? (.folderBox f)).isSome ↔ ∃ c, Holds items (.catFolders c) f

/-! ## The server -/

theorem findContainer_item : findContainer items (.item x) = containerOf items x := rfl

theorem categoryOfFolder_eq {catId : String} (h : Apart items) (hf : Holds items (.catFolders catId) f) :
    categoryOfFolder items f = realCategory catId := by
  unfold categoryOfFolder
  rw [findContainer_item, (containerOf_eq_some h).mpr hf]

/-- The fields of the page that the sidebar knows. -/
def serverFields (row : Page) : ServerFields := ⟨row.sortOrder, row.parentId, row.categoryId⟩

def itemType : PageType → ItemType
  | .folder => .folder
  | .page => .page

/-- What the server has for an item in the container. -/
structure OnServer (state : BuiltState) (st : WikiState) (c : Container) (x : String) (row : Page) : Prop where
  found : st.kb.findLive x = some row
  type : state.itemMeta.get? x = some (itemType row.type)
  fields : state.server.get? x = some (serverFields row)
  place : (row.parentId, row.categoryId) = containerAttrs state.items c

/-- The tree in the sidebar is the live tree of the server: every item is shown under its parent and its category and in
its order, and every page of the default space and every page under an item is shown. -/
structure Mirrors (state : BuiltState) (st : WikiState) : Prop where
  arranged : Arranged state.items state.itemMeta
  category : ∀ id, (state.items.get? (.catFolders id)).isSome ∨ (state.items.get? (.catPages id)).isSome →
    id = uncategorizedId ∨ ∃ category, st.kb.categories.find id = some category ∧ category.scope = .wiki
  item : ∀ c x, Holds state.items c x → ∃ row, OnServer state st c x row
  ordered : ∀ c list, state.items.get? c = some list → list.Pairwise fun x y => ∀ row row',
    st.kb.findLive x = some row → st.kb.findLive y = some row' → row.sortOrder ≤ row'.sortOrder
  complete : ∀ row ∈ st.kb.pages, row.deletedAt = none →
    (row.spaceId = defaultSpaceId ∨ ∃ y c, row.parentId = some y ∧ Holds state.items c y) →
      ∃ c, Holds state.items c row.id

/-! ## Loading -/

/-- What the loops of `buildState` put where. -/
inductive Shown (cats : List SidebarCategory) : Container → String → ItemType → ServerFields → Prop
  | folder {cat : SidebarCategory} {folder : SidebarFolder} (hcat : cat ∈ cats) (hfolder : folder ∈ cat.folders) :
    Shown cats (.catFolders cat.id) folder.id .folder folder.fields
  | inFolder {cat : SidebarCategory} {folder : SidebarFolder} {page : SidebarPage} (hcat : cat ∈ cats)
      (hfolder : folder ∈ cat.folders)
    (hpage : page ∈ folder.pages) : Shown cats (.folderBox folder.id) page.id .page page.fields
  | page {cat : SidebarCategory} {page : SidebarPage} (hcat : cat ∈ cats) (hpage : page ∈ cat.pages) :
    Shown cats (.catPages cat.id) page.id .page page.fields

/-- The ids of the items, in the order of the loops. -/
def shownIds (cats : List SidebarCategory) : List String := (cats.flatMap SidebarCategory.shown).map Prod.fst

/-- The categories with what is in them, as the server has them: no category and no item comes twice, each item is a live
page with these fields, in its category and in its folder, and siblings come in their order. -/
structure LiveTree (cats : List SidebarCategory) (st : WikiState) : Prop where
  categories : (cats.map SidebarCategory.id).Nodup
  once : (shownIds cats).Nodup
  category : ∀ cat ∈ cats, cat.id = uncategorizedId ∨ (st.kb.categories.find cat.id).any fun category =>
    category.scope == .wiki
  row : ∀ e ∈ cats.flatMap SidebarCategory.shown,
    (st.kb.findLive e.1).map (fun row => (itemType row.type, serverFields row)) = some e.2
  folder : ∀ cat ∈ cats, ∀ folder ∈ cat.folders, folder.categoryId = realCategory cat.id
  inFolder : ∀ cat ∈ cats, ∀ folder ∈ cat.folders, ∀ page ∈ folder.pages, page.parentId = some folder.id ∧
    page.categoryId = realCategory cat.id
  page : ∀ cat ∈ cats, ∀ page ∈ cat.pages, page.parentId = none ∧ page.categoryId = realCategory cat.id
  ordered : ∀ cat ∈ cats, (cat.folders.map SidebarFolder.sortOrder).Pairwise (· ≤ ·) ∧
    (cat.pages.map SidebarPage.sortOrder).Pairwise (· ≤ ·) ∧
    ∀ folder ∈ cat.folders, (folder.pages.map SidebarPage.sortOrder).Pairwise (· ≤ ·)
  complete : ∀ row ∈ st.kb.pages.rows, row.deletedAt = none →
    (row.spaceId = defaultSpaceId ∨ ∃ y ∈ shownIds cats, row.parentId = some y) → row.id ∈ shownIds cats

theorem mem_shown {e : String × ItemType × ServerFields} :
    e ∈ cats.flatMap SidebarCategory.shown ↔ ∃ c, Shown cats c e.1 e.2.1 e.2.2 := by
  simp only [List.mem_flatMap, SidebarCategory.shown, List.mem_append, List.mem_cons, List.mem_map]
  constructor
  · rintro ⟨cat, hcat, ⟨folder, hfolder, rfl | ⟨page, hpage, rfl⟩⟩ | ⟨page, hpage, rfl⟩⟩
    · exact ⟨_, .folder hcat hfolder⟩
    · exact ⟨_, .inFolder hcat hfolder hpage⟩
    · exact ⟨_, .page hcat hpage⟩
  · obtain ⟨x, type, fields⟩ := e
    rintro ⟨c, hc⟩
    dsimp only at hc
    cases hc with
    | folder hcat hfolder => exact ⟨_, hcat, Or.inl ⟨_, hfolder, Or.inl rfl⟩⟩
    | inFolder hcat hfolder hpage => exact ⟨_, hcat, Or.inl ⟨_, hfolder, Or.inr ⟨_, hpage, rfl⟩⟩⟩
    | page hcat hpage => exact ⟨_, hcat, Or.inr ⟨_, hpage, rfl⟩⟩

theorem mem_entries {e : Container × List String} : e ∈ cats.flatMap SidebarCategory.entries ↔
    ∃ cat ∈ cats, e = (.catFolders cat.id, cat.folders.map SidebarFolder.id) ∨
      e = (.catPages cat.id, cat.pages.map SidebarPage.id) ∨
      ∃ folder ∈ cat.folders, e = (.folderBox folder.id, folder.pages.map SidebarPage.id) := by
  simp only [List.mem_flatMap, SidebarCategory.entries, SidebarFolder.entries, List.mem_append, List.mem_cons,
    List.not_mem_nil, or_false, or_assoc]

/-- A category puts the same items into its lists as into the other two maps. -/
theorem entries_perm (cat : SidebarCategory) : (cat.entries.flatMap Prod.snd).Perm (cat.shown.map Prod.fst) := by
  have hentries : cat.entries.flatMap Prod.snd = cat.folders.map SidebarFolder.id ++ (cat.pages.map SidebarPage.id ++
      cat.folders.flatMap fun folder => folder.pages.map SidebarPage.id) := by
    simp [SidebarCategory.entries, SidebarFolder.entries, List.flatMap_assoc]
  have hshown : cat.shown.map Prod.fst =
      (cat.folders.flatMap fun folder => folder.id :: folder.pages.map SidebarPage.id) ++
        cat.pages.map SidebarPage.id := by
    simp [SidebarCategory.shown, List.map_flatMap, Function.comp_def]
  have hfolders :
    (cat.folders.map SidebarFolder.id ++ cat.folders.flatMap fun folder => folder.pages.map SidebarPage.id).Perm
      (cat.folders.flatMap fun folder => folder.id :: folder.pages.map SidebarPage.id) := by
    have hperm :=
      List.flatMap_append_perm cat.folders (fun folder => [folder.id]) fun folder => folder.pages.map SidebarPage.id
    have hids : (cat.folders.flatMap fun folder => [folder.id]) = cat.folders.map SidebarFolder.id := by
      rw [List.map_eq_flatMap]
    rwa [hids] at hperm
  rw [hentries, hshown]
  refine (List.perm_append_comm.append_left _).trans ?_
  rw [← List.append_assoc]
  exact hfolders.append_right _

namespace LiveTree

variable (h : LiveTree cats st)

include h

theorem nodup_items : ((cats.flatMap SidebarCategory.entries).flatMap Prod.snd).Nodup := by
  have hperm : ((cats.flatMap SidebarCategory.entries).flatMap Prod.snd).Perm (shownIds cats) := by
    rw [shownIds, List.flatMap_assoc, List.map_flatMap]
    exact List.Perm.flatMap_left cats fun cat _ => entries_perm cat
  exact hperm.nodup_iff.mpr h.once

theorem nodup_keys : ((cats.flatMap SidebarCategory.entries).map Prod.fst).Nodup := by
  have honce := h.once
  rw [shownIds, List.map_flatMap] at honce
  obtain ⟨heach, hdisjoint⟩ := List.nodup_flatMap.mp honce
  have hkeys : ∀ cat : SidebarCategory, cat.entries.map Prod.fst =
      .catFolders cat.id :: .catPages cat.id :: cat.folders.map fun folder => .folderBox folder.id := by
    intro cat
    simp only [SidebarCategory.entries, SidebarFolder.entries, List.map_cons, List.map_nil, List.map_flatMap,
      List.cons_append, List.nil_append]
    rw [List.map_eq_flatMap]
  have hfolderId : ∀ (cat : SidebarCategory), ∀ folder ∈ cat.folders, folder.id ∈ cat.shown.map Prod.fst := by
    intro cat folder hfolder
    refine List.mem_map.mpr ⟨(folder.id, .folder, folder.fields), ?_, rfl⟩
    exact List.mem_append_left _ (List.mem_flatMap.mpr ⟨folder, hfolder, List.mem_cons_self⟩)
  rw [List.map_flatMap]
  refine List.nodup_flatMap.mpr ⟨fun cat hcat => ?_, ?_⟩
  · rw [hkeys]
    have hfolders : (cat.folders.map SidebarFolder.id).Nodup := by
      have hall := (entries_perm cat).nodup_iff.mpr (heach cat hcat)
      simp only [SidebarCategory.entries, List.flatMap_append, List.flatMap_cons] at hall
      exact (List.nodup_append.mp (List.nodup_append.mp hall).1).1
    have hboxes : (cat.folders.map fun folder => Container.folderBox folder.id).Nodup := by
      have hmap : (cat.folders.map fun folder => Container.folderBox folder.id) =
          (cat.folders.map SidebarFolder.id).map Container.folderBox := by rw [List.map_map]; rfl
      rw [hmap]
      exact hfolders.map fun _ _ heq => Container.folderBox.inj heq
    simp [hboxes]
  · refine (List.Pairwise.and (List.pairwise_map.mp h.categories) hdisjoint).imp ?_
    rintro cat cat' ⟨hne, hno⟩ key hkey hkey'
    dsimp only at hkey hkey'
    rw [hkeys] at hkey hkey'
    simp only [List.mem_cons, List.mem_map] at hkey hkey'
    rcases hkey with rfl | rfl | ⟨folder, hfolder, rfl⟩
    · rcases hkey' with heq | heq | ⟨_, _, heq⟩
      · exact hne (Container.catFolders.inj heq)
      · cases heq
      · cases heq
    · rcases hkey' with heq | heq | ⟨_, _, heq⟩
      · cases heq
      · exact hne (Container.catPages.inj heq)
      · cases heq
    · rcases hkey' with heq | heq | ⟨folder', hfolder', heq⟩
      · cases heq
      · cases heq
      · have hsame := Container.folderBox.inj heq
        exact hno (hfolderId cat folder hfolder) (hsame ▸ hfolderId cat' folder' hfolder')

theorem holds_iff : Holds (buildState cats).items c x ↔ ∃ type fields, Shown cats c x type fields := by
  rw [buildState, holds_setAll h.nodup_keys]
  constructor
  · rintro ⟨e, he, rfl, hx⟩
    obtain ⟨cat, hcat, rfl | rfl | ⟨folder, hfolder, rfl⟩⟩ := mem_entries.mp he
    · obtain ⟨folder, hfolder, rfl⟩ := List.mem_map.mp hx
      exact ⟨_, _, .folder hcat hfolder⟩
    · obtain ⟨page, hpage, rfl⟩ := List.mem_map.mp hx
      exact ⟨_, _, .page hcat hpage⟩
    · obtain ⟨page, hpage, rfl⟩ := List.mem_map.mp hx
      exact ⟨_, _, .inFolder hcat hfolder hpage⟩
  · rintro ⟨type, fields, hshown⟩
    cases hshown with
    | folder hcat hfolder => exact ⟨_, mem_entries.mpr ⟨_, hcat, Or.inl rfl⟩, rfl, List.mem_map_of_mem hfolder⟩
    | inFolder hcat hfolder hpage =>
      exact ⟨_, mem_entries.mpr ⟨_, hcat, Or.inr (Or.inr ⟨_, hfolder, rfl⟩)⟩, rfl, List.mem_map_of_mem hpage⟩
    | page hcat hpage => exact ⟨_, mem_entries.mpr ⟨_, hcat, Or.inr (Or.inl rfl)⟩, rfl, List.mem_map_of_mem hpage⟩

/-- The other two maps, at an item. -/
theorem maps {type : ItemType} {fields : ServerFields} (hx : Shown cats c x type fields) :
    (buildState cats).itemMeta.get? x = some type ∧ (buildState cats).server.get? x = some fields := by
  have hmem : (x, type, fields) ∈ cats.flatMap SidebarCategory.shown := mem_shown.mpr ⟨c, hx⟩
  have honce := h.once
  rw [shownIds] at honce
  refine ⟨(OrderedMap.get?_setAll_eq_some ?_).mpr (List.mem_map.mpr ⟨_, hmem, rfl⟩),
    (OrderedMap.get?_setAll_eq_some ?_).mpr (List.mem_map.mpr ⟨_, hmem, rfl⟩)⟩
  · rw [List.map_map]
    exact honce
  · rw [List.map_map]
    exact honce

theorem arranged : Arranged (buildState cats).items (buildState cats).itemMeta := by
  refine ⟨apart_setAll h.nodup_keys h.nodup_items, fun c x hx => ?_, fun f => ?_⟩
  · obtain ⟨type, fields, hshown⟩ := h.holds_iff.mp hx
    rw [(h.maps hshown).1]
    cases hshown <;> rfl
  · have hkey : ((buildState cats).items.get? (.folderBox f)).isSome ↔
      ∃ cat ∈ cats, ∃ folder ∈ cat.folders, folder.id = f := by
      rw [Option.isSome_iff_exists]
      constructor
      · rintro ⟨list, hlist⟩
        have he := (OrderedMap.get?_setAll_eq_some h.nodup_keys).mp hlist
        obtain ⟨cat, hcat, heq | heq | ⟨folder, hfolder, heq⟩⟩ := mem_entries.mp he
        · cases heq
        · cases heq
        · cases heq
          exact ⟨cat, hcat, folder, hfolder, rfl⟩
      · rintro ⟨cat, hcat, folder, hfolder, rfl⟩
        exact ⟨_, (OrderedMap.get?_setAll_eq_some h.nodup_keys).mpr
          (mem_entries.mpr ⟨cat, hcat, Or.inr (Or.inr ⟨folder, hfolder, rfl⟩)⟩)⟩
    rw [hkey]
    constructor
    · rintro ⟨cat, hcat, folder, hfolder, rfl⟩
      exact ⟨cat.id, h.holds_iff.mpr ⟨_, _, .folder hcat hfolder⟩⟩
    · rintro ⟨catId, hf⟩
      obtain ⟨type, fields, hshown⟩ := h.holds_iff.mp hf
      cases hshown with
      | folder hcat hfolder => exact ⟨_, hcat, _, hfolder, rfl⟩

/-- An item has the row that the server has for it. -/
theorem onServer {type : ItemType} {fields : ServerFields} (hx : Shown cats c x type fields) :
    ∃ row, st.kb.findLive x = some row ∧ itemType row.type = type ∧ serverFields row = fields := by
  obtain ⟨row, hrow, heq⟩ := Option.map_eq_some_iff.mp (h.row (x, type, fields) (mem_shown.mpr ⟨c, hx⟩))
  obtain ⟨htype, hfields⟩ := Prod.mk.inj heq
  exact ⟨row, hrow, htype, hfields⟩

theorem place {type : ItemType} {fields : ServerFields} (hx : Shown cats c x type fields) :
    (fields.parentId, fields.categoryId) = containerAttrs (buildState cats).items c := by
  cases hx with
  | folder hcat hfolder => exact Prod.ext rfl (h.folder _ hcat _ hfolder)
  | inFolder hcat hfolder hpage =>
    obtain ⟨hparent, hcategory⟩ := h.inFolder _ hcat _ hfolder _ hpage
    refine Prod.ext hparent (hcategory.trans ?_)
    exact (categoryOfFolder_eq h.arranged.apart (h.holds_iff.mpr ⟨_, _, .folder hcat hfolder⟩)).symm
  | page hcat hpage =>
    obtain ⟨hparent, hcategory⟩ := h.page _ hcat _ hpage
    exact Prod.ext hparent hcategory

theorem mem_shownIds : x ∈ shownIds cats ↔ ∃ c, Holds (buildState cats).items c x := by
  rw [shownIds, List.mem_map]
  constructor
  · rintro ⟨e, he, rfl⟩
    obtain ⟨c, hc⟩ := mem_shown.mp he
    exact ⟨c, h.holds_iff.mpr ⟨_, _, hc⟩⟩
  · rintro ⟨c, hc⟩
    obtain ⟨type, fields, hshown⟩ := h.holds_iff.mp hc
    exact ⟨(x, type, fields), mem_shown.mpr ⟨c, hshown⟩, rfl⟩

/-- The order of a list, by the rows. -/
theorem pairwise_rows {α : Type} {items : List α} {id : α → String} {type : ItemType} (fields : α → ServerFields)
    (hshown : ∀ a ∈ items, Shown cats c (id a) type (fields a))
    (hordered : (items.map fun a => (fields a).sortOrder).Pairwise (· ≤ ·)) :
    (items.map id).Pairwise fun x y => ∀ row row', st.kb.findLive x = some row → st.kb.findLive y = some row' →
      row.sortOrder ≤ row'.sortOrder := by
  refine List.pairwise_map.mpr ((List.pairwise_map.mp hordered).imp_of_mem ?_)
  intro a b ha hb hle row row' hrow hrow'
  obtain ⟨found, hfound, -, hfields⟩ := h.onServer (hshown a ha)
  obtain ⟨found', hfound', -, hfields'⟩ := h.onServer (hshown b hb)
  cases hrow.symm.trans hfound
  cases hrow'.symm.trans hfound'
  have horder : row.sortOrder = (fields a).sortOrder := congrArg ServerFields.sortOrder hfields
  have horder' : row'.sortOrder = (fields b).sortOrder := congrArg ServerFields.sortOrder hfields'
  rw [horder, horder']
  exact hle

end LiveTree

/-- What the sidebar builds from the live tree of the server mirrors it. -/
theorem buildState_mirrors (h : LiveTree cats st) : Mirrors (buildState cats) st := by
  have hcategory : ∀ cat ∈ cats, cat.id = uncategorizedId ∨
      ∃ category, st.kb.categories.find cat.id = some category ∧ category.scope = .wiki := by
    intro cat hcat
    refine (h.category cat hcat).imp_right fun hany => ?_
    obtain ⟨category, hfind, hscope⟩ := (Option.any_eq_true _ _).mp hany
    exact ⟨category, hfind, by simpa using hscope⟩
  refine ⟨h.arranged, fun id hid => ?_, fun c x hx => ?_, fun c list hlist => ?_, fun row hrow hlive hsight => ?_⟩
  · rcases hid with hid | hid
    · obtain ⟨list, hlist⟩ := Option.isSome_iff_exists.mp hid
      obtain ⟨cat, hcat, heq | heq | ⟨_, _, heq⟩⟩ :=
        mem_entries.mp ((OrderedMap.get?_setAll_eq_some h.nodup_keys).mp hlist)
      · cases heq
        exact hcategory cat hcat
      · cases heq
      · cases heq
    · obtain ⟨list, hlist⟩ := Option.isSome_iff_exists.mp hid
      obtain ⟨cat, hcat, heq | heq | ⟨_, _, heq⟩⟩ :=
        mem_entries.mp ((OrderedMap.get?_setAll_eq_some h.nodup_keys).mp hlist)
      · cases heq
      · cases heq
        exact hcategory cat hcat
      · cases heq
  · obtain ⟨type, fields, hshown⟩ := h.holds_iff.mp hx
    obtain ⟨row, hrow, rfl, rfl⟩ := h.onServer hshown
    obtain ⟨htype, hfields⟩ := h.maps hshown
    exact ⟨row, hrow, htype, hfields, h.place hshown⟩
  · obtain ⟨cat, hcat, heq | heq | ⟨folder, hfolder, heq⟩⟩ :=
      mem_entries.mp ((OrderedMap.get?_setAll_eq_some h.nodup_keys).mp hlist)
    · cases heq
      exact h.pairwise_rows SidebarFolder.fields (fun _ ha => .folder hcat ha) (h.ordered cat hcat).1
    · cases heq
      exact h.pairwise_rows SidebarPage.fields (fun _ ha => .page hcat ha) (h.ordered cat hcat).2.1
    · cases heq
      exact h.pairwise_rows SidebarPage.fields (fun _ ha => .inFolder hcat hfolder ha)
        ((h.ordered cat hcat).2.2 folder hfolder)
  · refine h.mem_shownIds.mp (h.complete row hrow hlive (hsight.imp_right ?_))
    rintro ⟨y, c, hy, hc⟩
    exact ⟨y, h.mem_shownIds.mpr ⟨c, hc⟩, hy⟩

end AdWiki.Web
