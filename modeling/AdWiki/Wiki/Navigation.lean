import AdWiki.Access.Readable
import AdWiki.Wiki.PageCalls
import AdWiki.Wiki.PageTree

/-!
# The navigation trees

`PagesService.buildTree` and `buildUncategorizedTree`: the folders of a category (or of a space, without a category) with
the pages in them, and the pages without a folder. No page occurs twice (`nodup_ids`). A page that hangs below a row which
is not shown as a folder does not occur at all.

* `occurs_iff`: in an intact tree whose pages hang below folders (`BelowFolders`), a page that the user may read occurs
  exactly if the user may read its folder.
* `step_placed`: the calls that keep the pages below folders (`KeepsPlace`). A page that is restored from the trash need
  not find its folder again.
-/

namespace AdWiki.Wiki

open Access Fallible

/-- A folder of a tree and the pages in it. -/
structure NavigationFolder where
  folder : Page
  pages : List Page

structure NavigationTree where
  folders : List NavigationFolder
  pages : List Page

structure CategoryTree where
  id : String
  name : String
  slug : String
  icon : Option String
  description : Option String
  tree : NavigationTree

/-- The ids of the pages that a tree shows, as often as it shows them. -/
def NavigationTree.ids (tree : NavigationTree) : List String :=
  (tree.pages ++ tree.folders.flatMap NavigationFolder.pages).map Page.id

/-! ## The two queries -/

/-- `orderBy: { sortOrder: "asc" }`. -/
def bySortOrder (pages : List Page) : List Page := pages.insertionSort fun a b => a.sortOrder ≤ b.sortOrder

/-- `...(allowedIds ? { id: { in: allowedIds } } : {})`. -/
def shown (allowedIds : Option (List String)) (page : Page) : Bool := allowedIds.all fun ids => ids.contains page.id

section Load

variable (order : RowOrder) (pages : Table Page.id) (place : Page → Bool) (allowedIds : Option (List String))

/-- The live rows of a type that are shown. -/
def showsRow (type : PageType) (page : Page) : Bool :=
  page.type == type && page.deletedAt.isNone && shown allowedIds page

def childrenOf (folder : Page) : List Page :=
  bySortOrder (pages.findMany order fun page => page.parentId == some folder.id && showsRow allowedIds .page page)

/-- The folders of a place with their children, and the pages of the place without a parent. -/
def loadTree : NavigationTree where
  folders :=
    (bySortOrder (pages.findMany order fun page => place page && showsRow allowedIds .folder page)).map fun folder =>
    ⟨folder, childrenOf order pages allowedIds folder⟩
  pages := bySortOrder (pages.findMany order fun page =>
    place page && page.parentId.isNone && showsRow allowedIds .page page)

end Load

def wikiCategoryNotFound (slug : String) : HttpError := .notFound ("Kategorie \"" ++ slug ++ "\" wurde nicht gefunden.")

section Build

variable (order : RowOrder) (db : Database)

/-- The pages of a query that the user may read. -/
def allowedPageIds (user : AuthenticatedUser) (p : Page → Bool) : Except HttpError (List String) :=
  db.allowedTargetIds order user ⟨.pages, .read, .page, (db.knowledge.pages.findMany order p).map Page.id⟩

/-- The tree of a place for a user who must be allowed to read the target that it belongs to. -/
def placeTree (user : Option AuthenticatedUser) (targetType : TargetType) (targetId : String) (place : Page → Bool) :
    Except HttpError NavigationTree :=
  match user with
  | none => .ok (loadTree order db.knowledge.pages place none)
  | some user => do
    let _ ← db.assertAllowed order user ⟨.pages, .read, targetType, targetId⟩ none
    let allowedIds ← allowedPageIds order db user fun page => place page && page.deletedAt.isNone
    pure (loadTree order db.knowledge.pages place (some allowedIds))

/-- `findUnique` by `@@unique([spaceId, scope, slug])`. -/
def findWikiCategory (kb : KnowledgeBase) (spaceId slug : String) : Option Category :=
  kb.categories.rows.find? fun row => row.spaceId == spaceId && row.scope == .wiki && row.slug == slug

/-- The row is in the category. -/
def inCategory (categoryId : String) (page : Page) : Bool := page.categoryId == some categoryId

/-- The row is in the space, and in none of its categories. -/
def uncategorized (spaceId : String) (page : Page) : Bool := page.spaceId == spaceId && page.categoryId.isNone

def buildTree (categorySlug spaceId : String) (user : Option AuthenticatedUser) : Except HttpError CategoryTree :=
  match findWikiCategory db.knowledge spaceId categorySlug with
  | none => .error (wikiCategoryNotFound categorySlug)
  | some category => do
    let tree ← placeTree order db user .category category.id (inCategory category.id)
    pure ⟨category.id, category.name, category.slug, category.icon, category.description, tree⟩

def buildUncategorizedTree (spaceId : String) (user : Option AuthenticatedUser) : Except HttpError NavigationTree :=
  placeTree order db user .space spaceId (uncategorized spaceId)

end Build

variable {kb kb' : KnowledgeBase} {db : Database} {order : RowOrder} {pages : Table Page.id} {place : Page → Bool}
  {allowedIds : Option (List String)} {user : Option AuthenticatedUser} {page : Page}

/-! ## What a tree shows -/

theorem mem_bySortOrder {l : List Page} : page ∈ bySortOrder l ↔ page ∈ l :=
  (List.perm_insertionSort _ l).mem_iff

theorem nodup_bySortOrder {p : Page → Bool} : ((bySortOrder (pages.findMany order p)).map Page.id).Nodup :=
  ((List.perm_insertionSort _ _).map Page.id).nodup_iff.mpr Table.nodup_findMany

theorem showsRow_iff {type : PageType} : showsRow allowedIds type page = true ↔
    page.type = type ∧ page.deletedAt = none ∧ shown allowedIds page = true := by
  simp [showsRow, and_assoc]

theorem mem_childrenOf {folder : Page} : page ∈ childrenOf order pages allowedIds folder ↔
    page ∈ pages ∧ page.parentId = some folder.id ∧ showsRow allowedIds .page page = true := by
  simp [childrenOf, mem_bySortOrder]

/-- The folders of a tree. -/
theorem mem_folders {entry : NavigationFolder} : entry ∈ (loadTree order pages place allowedIds).folders ↔
    ∃ folder ∈ pages, place folder = true ∧ showsRow allowedIds .folder folder = true ∧
      ⟨folder, childrenOf order pages allowedIds folder⟩ = entry := by
  simp only [loadTree, List.mem_map, mem_bySortOrder, Table.mem_findMany, Bool.and_eq_true, and_assoc]

theorem mem_ids {id : String} : id ∈ (loadTree order pages place allowedIds).ids ↔
    ∃ page ∈ pages, page.id = id ∧ showsRow allowedIds .page page = true ∧
      (place page = true ∧ page.parentId = none ∨
        ∃ folder ∈ pages, page.parentId = some folder.id ∧ place folder = true ∧
          showsRow allowedIds .folder folder = true) := by
  simp only [NavigationTree.ids, List.mem_map, List.mem_append, List.mem_flatMap, mem_folders]
  constructor
  · rintro ⟨page, hroot | ⟨_, ⟨folder, hfolder, hplace, hshows, rfl⟩, hchild⟩, rfl⟩
    · simp only [loadTree, mem_bySortOrder, Table.mem_findMany, Bool.and_eq_true, Option.isNone_iff_eq_none] at hroot
      obtain ⟨hmem, ⟨hplace, hparent⟩, hshows⟩ := hroot
      exact ⟨page, hmem, rfl, hshows, Or.inl ⟨hplace, hparent⟩⟩
    · obtain ⟨hmem, hparent, hpage⟩ := mem_childrenOf.mp hchild
      exact ⟨page, hmem, rfl, hpage, Or.inr ⟨folder, hfolder, hparent, hplace, hshows⟩⟩
  · rintro ⟨page, hmem, rfl, hshows, ⟨hplace, hparent⟩ | ⟨folder, hfolder, hparent, hplace, hfolderShown⟩⟩
    · refine ⟨page, Or.inl ?_, rfl⟩
      simp [loadTree, mem_bySortOrder, hmem, hplace, hparent, hshows]
    · exact ⟨page,
        Or.inr ⟨_, ⟨folder, hfolder, hplace, hfolderShown, rfl⟩, mem_childrenOf.mpr ⟨hmem, hparent, hshows⟩⟩, rfl⟩

/-- A tree shows no page twice: a page has one parent, and the pages without one stand by themselves. -/
theorem nodup_ids : (loadTree order pages place allowedIds).ids.Nodup := by
  unfold NavigationTree.ids
  rw [List.map_append, List.nodup_append]
  have hrow : ∀ {a b : Page}, a ∈ pages → b ∈ pages → a.id = b.id → a = b := fun ha hb hid =>
    Rows.eq_of_key pages.unique ha hb hid
  refine ⟨nodup_bySortOrder, ?_, ?_⟩
  · rw [List.map_flatMap, List.nodup_flatMap]
    refine ⟨fun entry hentry => ?_, ?_⟩
    · obtain ⟨folder, -, -, -, rfl⟩ := mem_folders.mp hentry
      exact nodup_bySortOrder
    · have hfolders : ((bySortOrder (pages.findMany order fun page => place page && showsRow allowedIds .folder page)).map
          Page.id).Nodup := nodup_bySortOrder
      rw [List.Nodup, List.pairwise_map] at hfolders
      refine List.pairwise_map.mpr (hfolders.imp fun {a b} hne => ?_)
      intro id hida hidb
      obtain ⟨p, hp, rfl⟩ := List.mem_map.mp hida
      obtain ⟨q, hq, hid⟩ := List.mem_map.mp hidb
      obtain ⟨hpmem, hpparent, -⟩ := mem_childrenOf.mp hp
      obtain ⟨hqmem, hqparent, -⟩ := mem_childrenOf.mp hq
      obtain rfl : q = p := hrow hqmem hpmem hid
      exact hne (Option.some.inj (hpparent.symm.trans hqparent))
  · rintro id hroot id' hchild rfl
    obtain ⟨p, hp, rfl⟩ := List.mem_map.mp hroot
    obtain ⟨q, hq, hid⟩ := List.mem_map.mp hchild
    obtain ⟨entry, hentry, hq⟩ := List.mem_flatMap.mp hq
    obtain ⟨folder, -, -, -, rfl⟩ := mem_folders.mp hentry
    obtain ⟨hqmem, hqparent, -⟩ := mem_childrenOf.mp hq
    simp only [loadTree, mem_bySortOrder, Table.mem_findMany, Bool.and_eq_true, Option.isNone_iff_eq_none] at hp
    obtain rfl : q = p := hrow hqmem hp.1 hid
    rw [hp.2.1.2] at hqparent
    cases hqparent

/-! ## What a user sees -/

/-- The row is a folder that is not in the trash. -/
def IsFolder (kb : KnowledgeBase) (id : String) : Prop := ∃ folder, kb.findLive id = some folder ∧ folder.type = .folder

/-- Pages hang below folders. -/
def BelowFolders (kb : KnowledgeBase) : Prop :=
  ∀ page ∈ kb.pages, page.type = .page → page.deletedAt = none → ∀ y, page.parentId = some y → IsFolder kb y

/-- The user may read the target; without a user every read is allowed. -/
def CanRead (order : RowOrder) (db : Database) (user : Option AuthenticatedUser) (type : TargetType)
    (id : String) : Prop :=
  ∀ actor, user = some actor → Allowed order db actor ⟨.pages, .read, type, id⟩

variable {type : TargetType} {targetId : String}

theorem assertAllowed_iff {actor : AuthenticatedUser} {request : AccessRequest} :
    (∃ d, db.assertAllowed order actor request none = .ok d) ↔ Allowed order db actor request := by
  unfold Database.assertAllowed Allowed
  constructor
  · rintro ⟨d, h⟩
    obtain ⟨decision, hdecision, h⟩ := bind_eq_ok.mp h
    cases hallowed : decision.allowed with
    | true => exact ⟨decision, hdecision, hallowed⟩
    | false => simp [hallowed] at h
  · rintro ⟨d, hd, hallowed⟩
    exact ⟨d, bind_eq_ok.mpr ⟨d, hd, by simp [hallowed, pure, Except.pure]⟩⟩

/-- A page fits a question about pages. -/
theorem fits_page : Fits kb .page targetId .pages := by
  intro r hr
  cases hr with
  | page _ hline _ =>
    obtain ⟨first, rest, -, rfl⟩ := hline.chain.head
    exact ⟨pageTarget first, rfl, by simp [pageTarget, target, Js.mem_distinct]⟩

/-- A question about pages of an intact tree is answered with those that the actor may read. -/
theorem allowedPageIds_ok {actor : AuthenticatedUser} {p : Page → Bool} (hinv : TreeInv db.knowledge) :
    ∃ ids, allowedPageIds order db actor p = .ok ids ∧ ∀ row ∈ db.knowledge.pages,
      (row.id ∈ ids ↔ p row = true ∧ Allowed order db actor ⟨.pages, .read, .page, row.id⟩) := by
  have hsupported : isPermissionSupported ⟨.pages, .read⟩ = true := by decide
  have hformed : ∀ id ∈ (db.knowledge.pages.findMany order p).map Page.id, WellFormed db.knowledge .page id := by
    intro id hid
    obtain ⟨row, hrow, rfl⟩ := List.mem_map.mp hid
    refine hinv.wellFormed ?_
    rw [Table.find_of_mem (Table.mem_findMany.mp hrow).1]
    rfl
  have hok : ∃ ids, allowedPageIds order db actor p = .ok ids := by
    obtain ⟨decisions, hdecisions, -⟩ : ∃ decisions, db.evaluateMany order actor
        ⟨.pages, .read, .page, (db.knowledge.pages.findMany order p).map Page.id⟩ = .ok decisions ∧ _ :=
      evaluateMany_same hformed order order hsupported fun _ _ _ => fits_page
    exact ⟨_, bind_eq_ok.mpr ⟨decisions, hdecisions, rfl⟩⟩
  obtain ⟨ids, hids⟩ := hok
  refine ⟨ids, hids, fun row hrow => ?_⟩
  have hmem : row.id ∈ ids ↔ row.id ∈ (db.knowledge.pages.findMany order p).map Page.id ∧
      Allowed order db actor ⟨.pages, .read, .page, row.id⟩ :=
        mem_allowedTargetIds (by exact hformed) (by exact hsupported) hids
  rw [hmem]
  refine and_congr_left fun _ => ?_
  constructor
  · intro hid
    obtain ⟨other, hother, hsame⟩ := List.mem_map.mp hid
    obtain ⟨hmem, hp⟩ := Table.mem_findMany.mp hother
    rwa [Rows.eq_of_key db.knowledge.pages.unique hmem hrow hsame] at hp
  · intro hp
    exact List.mem_map_of_mem (Table.mem_findMany.mpr ⟨hrow, hp⟩)

/-- The tree of a place is answered exactly if the user may read its target, and shows what the user may read. -/
theorem placeTree_ok (hinv : TreeInv db.knowledge) (order : RowOrder) (user : Option AuthenticatedUser)
    (type : TargetType) (id : String) (place : Page → Bool) :
    ((∃ tree, placeTree order db user type id place = .ok tree) ↔ CanRead order db user type id) ∧
      ∀ tree, placeTree order db user type id place = .ok tree →
        ∃ allowedIds, tree = loadTree order db.knowledge.pages place allowedIds ∧
          ∀ row ∈ db.knowledge.pages, place row = true → row.deletedAt = none →
            (shown allowedIds row = true ↔ CanRead order db user .page row.id) := by
  cases user with
  | none =>
    refine ⟨iff_of_true ⟨_, rfl⟩ (fun _ h => nomatch h), fun tree htree => ?_⟩
    cases htree
    exact ⟨none, rfl, fun row _ _ _ => iff_of_true rfl fun _ h => nomatch h⟩
  | some actor =>
    have hread : ∀ type id, CanRead order db (some actor) type id ↔ Allowed order db actor ⟨.pages, .read, type, id⟩ :=
      fun type id => ⟨fun h => h actor rfl, fun h a ha => Option.some.inj ha ▸ h⟩
    obtain ⟨ids, hids, hmem⟩ :
      ∃ ids, allowedPageIds order db actor (fun page => place page && page.deletedAt.isNone) = .ok ids ∧
      ∀ row ∈ db.knowledge.pages, _ := allowedPageIds_ok hinv
    constructor
    · rw [hread, ← assertAllowed_iff]
      constructor
      · rintro ⟨tree, htree⟩
        obtain ⟨d, hd, -⟩ := bind_eq_ok.mp htree
        exact ⟨d, hd⟩
      · rintro ⟨d, hd⟩
        exact ⟨_, bind_eq_ok.mpr ⟨d, hd, bind_eq_ok.mpr ⟨ids, hids, rfl⟩⟩⟩
    · intro tree htree
      obtain ⟨d, -, htree⟩ := bind_eq_ok.mp htree
      obtain ⟨ids', hids', htree⟩ := bind_eq_ok.mp htree
      rw [hids] at hids'
      cases hids'
      cases pure_eq_ok.mp htree
      refine ⟨some ids, rfl, fun row hrow hplace hlive => ?_⟩
      rw [hread, shown, Option.all_some, List.contains_iff_mem, hmem row hrow]
      simp [hplace, hlive]

/-- The tree of a place is answered and shows the page once. -/
def ShownIn (tree : Except HttpError NavigationTree) (page : Page) : Prop :=
  ∃ shown, tree = .ok shown ∧ shown.ids.count page.id = 1

/-- **What a tree shows.** A page of the place that the user may read is shown once exactly if the user may read the
target of the place and the folder of the page. -/
theorem shownIn_iff (hinv : TreeInv db.knowledge) (hplaced : BelowFolders db.knowledge)
    (hplace : ∀ a b : Page, a.spaceId = b.spaceId → a.categoryId = b.categoryId → place a = place b)
    (hpage : page ∈ db.knowledge.pages) (htype : page.type = .page) (hlive : page.deletedAt = none)
    (hin : place page = true) (hread : CanRead order db user .page page.id) :
    ShownIn (placeTree order db user type targetId place) page ↔
      CanRead order db user type targetId ∧ ∀ y, page.parentId = some y → CanRead order db user .page y := by
  obtain ⟨hanswered, htree⟩ := placeTree_ok hinv order user type targetId place
  have hfolder : ∀ y, page.parentId = some y → ∃ folder ∈ db.knowledge.pages, folder.id = y ∧ folder.type = .folder ∧
      folder.deletedAt = none ∧ place folder = true := by
    intro y hy
    obtain ⟨folder, hfound, hfolderType⟩ := hplaced page hpage htype hlive y hy
    obtain ⟨hfind, hfolderLive⟩ := findLive_eq_some.mp hfound
    obtain ⟨hmem, hid⟩ := Table.find_eq_some.mp hfind
    obtain ⟨parent, hparent, hspace, hcategory⟩ := hinv.edge page hpage y hy
    obtain rfl : folder = parent := Option.some.inj (hfind.symm.trans hparent)
    exact ⟨folder, hmem, hid, hfolderType, hfolderLive, (hplace folder page hspace hcategory).trans hin⟩
  constructor
  · rintro ⟨tree, hok, hcount⟩
    refine ⟨hanswered.mp ⟨tree, hok⟩, fun y hy => ?_⟩
    obtain ⟨allowedIds, rfl, hshown⟩ := htree tree hok
    have hmem : page.id ∈ (loadTree order db.knowledge.pages place allowedIds).ids :=
      List.count_pos_iff.mp (by rw [hcount]; exact Nat.one_pos)
    obtain ⟨row, hrow, hid, -, hwhere⟩ := mem_ids.mp hmem
    obtain rfl : row = page := Rows.eq_of_key db.knowledge.pages.unique hrow hpage hid
    rcases hwhere with ⟨-, hroot⟩ | ⟨folder, hfolder, hparent, hfolderIn, hshows⟩
    · rw [hy] at hroot
      cases hroot
    · obtain rfl : y = folder.id := Option.some.inj (hy.symm.trans hparent)
      obtain ⟨-, hfolderLive, hfolderShown⟩ := showsRow_iff.mp hshows
      exact (hshown folder hfolder hfolderIn hfolderLive).mp hfolderShown
  · rintro ⟨htarget, hparent⟩
    obtain ⟨tree, hok⟩ := hanswered.mpr htarget
    refine ⟨tree, hok, ?_⟩
    obtain ⟨allowedIds, rfl, hshown⟩ := htree tree hok
    have hshows : showsRow allowedIds .page page = true :=
      showsRow_iff.mpr ⟨htype, hlive, (hshown page hpage hin hlive).mpr hread⟩
    refine List.count_eq_one_of_mem nodup_ids (mem_ids.mpr ⟨page, hpage, rfl, hshows, ?_⟩)
    cases hy : page.parentId with
    | none => exact Or.inl ⟨hin, rfl⟩
    | some y =>
      obtain ⟨folder, hmem, rfl, hfolderType, hfolderLive, hfolderIn⟩ := hfolder y hy
      refine Or.inr ⟨folder, hmem, rfl, hfolderIn, showsRow_iff.mpr ⟨hfolderType, hfolderLive, ?_⟩⟩
      exact (hshown folder hmem hfolderIn hfolderLive).mpr (hparent folder.id hy)

/-! ## Calls that keep the pages below folders -/

/-- Update: a row that becomes a page gets a folder as its parent, and no page is left below it. Restore: the parent of a
page is a folder. -/
def KeepsPlace (st : WikiState) : WikiCall → Prop
  | .update id input _ => ∀ page, st.kb.findLive id = some page → input.type = some .page →
    (∀ y, input.parentId.getD page.parentId = some y → IsFolder st.kb y) ∧
      ∀ child ∈ st.kb.pages, child.parentId = some id → child.type = .page → child.deletedAt.isSome
  | .restore id _ => ∀ page, st.kb.findTrashed id = some page → page.type = .page →
    ∀ y, page.parentId = some y → IsFolder st.kb y
  | _ => True

variable {st st' : WikiState} {slugify : String → String} {actor : Option AuthenticatedUser}

theorem isFolder_iff {id : String} : IsFolder kb id ↔
    ∃ folder, kb.pages.find id = some folder ∧ folder.deletedAt = none ∧ folder.type = .folder := by
  simp only [IsFolder, findLive_eq_some, and_assoc]

/-- No row of an intact tree is its own parent. -/
theorem TreeInv.parent_ne (h : TreeInv kb) (hpage : page ∈ kb.pages) : page.parentId ≠ some page.id := by
  intro hself
  obtain ⟨l, hl, -⟩ := h.chain page hpage
  have hlonger : Ancestors.Chain kb.pages.find Page.parentId page.id (page :: l) :=
    .child (Table.find_of_mem hpage) hself hl
  have hlength := congrArg List.length (hl.unique hlonger)
  rw [List.length_cons] at hlength
  omega

/-- A rewritten row `new`, the others being as they were: what is left to show for it. -/
theorem placed_write (new : Page) (hplaced : BelowFolders kb)
    (hfind : ∀ x, kb'.pages.find x = if x = new.id then some new else kb.pages.find x)
    (hnew : new.type = .page → new.deletedAt = none → ∀ y, new.parentId = some y → y ≠ new.id ∧ IsFolder kb y)
    (hstays : IsFolder kb new.id → new.type = .folder ∧ new.deletedAt = none ∨
      ∀ child ∈ kb.pages, child.id ≠ new.id → child.parentId = some new.id → child.type = .page →
        child.deletedAt.isSome) :
    BelowFolders kb' := by
  have hother : ∀ {y}, y ≠ new.id → IsFolder kb y → IsFolder kb' y := by
    intro y hy hfolder
    rw [isFolder_iff] at hfolder ⊢
    rwa [hfind, if_neg hy]
  intro row hrow htype hlive y hy
  have hrowFind := Table.find_of_mem hrow
  rw [hfind] at hrowFind
  by_cases hid : row.id = new.id
  · rw [if_pos hid] at hrowFind
    obtain rfl : new = row := Option.some.inj hrowFind
    obtain ⟨hne, hfolder⟩ := hnew htype hlive y hy
    exact hother hne hfolder
  · rw [if_neg hid] at hrowFind
    have hmem : row ∈ kb.pages := (Table.find_eq_some.mp hrowFind).1
    have hfolder := hplaced row hmem htype hlive y hy
    by_cases hyNew : y = new.id
    · subst hyNew
      rcases hstays hfolder with hstill | hnone
      · exact isFolder_iff.mpr ⟨new, by rw [hfind, if_pos rfl], hstill.2, hstill.1⟩
      · have htrashed := hnone row hmem hid hy htype
        rw [hlive] at htrashed
        cases htrashed
    · exact hother hyNew hfolder

theorem Created.placed (h : Created kb kb' page) (hplaced : BelowFolders kb) : BelowFolders kb' := by
  refine placed_write page hplaced h.find (fun _ _ y hy => ?_) fun hfolder => ?_
  · obtain ⟨folder, hfind, htype, hlive, -⟩ := h.folder y hy
    refine ⟨?_, isFolder_iff.mpr ⟨folder, hfind, hlive, htype⟩⟩
    rintro rfl
    rw [h.fresh] at hfind
    cases hfind
  · obtain ⟨folder, hfind, -⟩ := isFolder_iff.mp hfolder
    rw [h.fresh] at hfind
    cases hfind

theorem Updated.placed {input : UpdatePageInput} {spaceId : String} (h : Updated kb kb' input page spaceId)
    (hinv : TreeInv kb) (hplaced : BelowFolders kb)
    (hkeeps : input.type = some .page → (∀ y, input.parentId.getD page.parentId = some y → IsFolder kb y) ∧
      ∀ child ∈ kb.pages, child.parentId = some page.id → child.type = .page →
        child.deletedAt.isSome) : BelowFolders kb' := by
  have hmem : page ∈ kb.pages := (Table.find_eq_some.mp h.found).1
  have htype : (page.write input spaceId page).type = input.type.getD page.type := rfl
  refine placed_write (page.write input spaceId page) hplaced h.find (fun hpageType _ y hy => ?_) fun hfolder => ?_
  · cases hchanged : input.assignmentChanged with
    | true =>
      obtain ⟨hne, folder, hfind, hfolderType, hlive, -⟩ := h.folder hchanged y hy
      exact ⟨hne, isFolder_iff.mpr ⟨folder, hfind, hlive, hfolderType⟩⟩
    | false =>
      have hsame : input.parentId = none := (h.stays hchanged).2.2
      rw [Page.write_parentId, hsame, Option.getD_none] at hy
      refine ⟨fun hself => hinv.parent_ne hmem (hself ▸ hy), ?_⟩
      cases hgiven : input.type with
      | none =>
        rw [htype, hgiven, Option.getD_none] at hpageType
        exact hplaced page hmem hpageType h.live y hy
      | some type =>
        rw [htype, hgiven, Option.getD_some] at hpageType
        exact (hkeeps (hgiven.trans (congrArg some hpageType))).1 y (by rw [hsame]; exact hy)
  · obtain ⟨folder, hfind, hlive, hfolderType⟩ := isFolder_iff.mp hfolder
    obtain rfl : page = folder := Option.some.inj (h.found.symm.trans hfind)
    cases hnew : input.type.getD page.type with
    | folder => exact Or.inl ⟨htype.trans hnew, hlive⟩
    | page =>
      refine Or.inr fun child hchild _ hparent hchildType => ?_
      cases hgiven : input.type with
      | none =>
        rw [hgiven, Option.getD_none, hfolderType] at hnew
        cases hnew
      | some type =>
        rw [hgiven, Option.getD_some] at hnew
        exact (hkeeps (hgiven.trans (congrArg some hnew))).2 child hchild hparent hchildType

theorem Restored.placed (h : Restored kb kb' page) (hinv : TreeInv kb) (hplaced : BelowFolders kb)
    (hkeeps : page.type = .page → ∀ y, page.parentId = some y → IsFolder kb y) : BelowFolders kb' := by
  have hmem : page ∈ kb.pages := (Table.find_eq_some.mp h.found).1
  refine placed_write { page with deletedAt := none, deletedById := none } hplaced h.find
    (fun htype _ y hy => ⟨?_, hkeeps htype y hy⟩) fun hfolder => ?_
  · rintro rfl
    exact hinv.parent_ne hmem hy
  · obtain ⟨folder, hfind, hlive, -⟩ := isFolder_iff.mp hfolder
    obtain rfl : page = folder := Option.some.inj (h.found.symm.trans hfind)
    have htrashed := h.trashed
    rw [hlive] at htrashed
    cases htrashed

/-- The children of a folder that goes into the trash lose their parent. -/
theorem Removed.placed {now : Time} {deletedById : String} (h : Removed kb kb' page now deletedById)
    (hplaced : BelowFolders kb) :
    BelowFolders kb' := by
  have hrow : ∀ {x row'}, kb'.pages.find x = some row' → ∃ row, kb.pages.find x = some row ∧
      row' = Wiki.trashed page now deletedById row := by
    intro x row' hx
    rw [h.find, Option.map_eq_some_iff] at hx
    obtain ⟨row, hfind, hwritten⟩ := hx
    exact ⟨row, hfind, hwritten.symm⟩
  intro row' hmem' htype hlive y hy
  obtain ⟨row, hfind, rfl⟩ := hrow (Table.find_of_mem hmem')
  have hmem := (Table.find_eq_some.mp hfind).1
  have hid : row.id ≠ page.id := by
    intro hid
    simp [Wiki.trashed, hid] at hlive
  simp only [Wiki.trashed, if_neg hid] at htype hlive hy
  by_cases hmoved : page.type = .folder ∧ row.parentId = some page.id ∧ row.deletedAt = none
  · rw [if_pos hmoved] at hy
    cases hy
  · rw [if_neg hmoved] at htype hlive hy
    obtain ⟨folder, hfolder, hfolderLive, hfolderType⟩ := isFolder_iff.mp (hplaced row hmem htype hlive y hy)
    have hne : folder.id ≠ page.id := by
      intro hsame
      have hfolderId : folder.id = y := find_id hfolder
      rw [← hfolderId, hsame, h.found] at hfolder
      obtain rfl : page = folder := Option.some.inj hfolder
      exact hmoved ⟨hfolderType, by rw [hy, ← hfolderId], hlive⟩
    refine isFolder_iff.mpr ⟨Wiki.trashed page now deletedById folder, by rw [h.find, hfolder]; rfl, ?_, ?_⟩
    · simp only [Wiki.trashed, if_neg hne]
      split <;> exact hfolderLive
    · simp only [Wiki.trashed, if_neg hne]
      split <;> exact hfolderType

theorem Purged.placed (h : Purged kb kb' page) (hplaced : BelowFolders kb) : BelowFolders kb' := by
  have hfind : ∀ {x row'}, x ≠ page.id → kb'.pages.find x = some row' → ∃ row, kb.pages.find x = some row ∧
      row' = if row.parentId = some page.id then { row with parentId := none } else row := by
    intro x row' hne hx
    rw [h.find, if_neg hne, Option.map_eq_some_iff] at hx
    obtain ⟨row, hrow, hwritten⟩ := hx
    exact ⟨row, hrow, hwritten.symm⟩
  intro row' hmem' htype hlive y hy
  have hself := Table.find_of_mem hmem'
  have hne : row'.id ≠ page.id := by
    intro hid
    rw [hid, h.find, if_pos rfl] at hself
    cases hself
  obtain ⟨row, hrow, rfl⟩ := hfind hne hself
  by_cases hparent : row.parentId = some page.id
  · rw [if_pos hparent] at hy
    cases hy
  · rw [if_neg hparent] at htype hlive hy
    obtain ⟨folder, hfolder, hfolderLive, hfolderType⟩ :=
      isFolder_iff.mp (hplaced row (Table.find_eq_some.mp hrow).1 htype hlive y hy)
    have hyNe : y ≠ page.id := by
      rintro rfl
      exact hparent hy
    refine isFolder_iff.mpr ⟨_, by rw [h.find, if_neg hyNe, hfolder]; rfl, ?_, ?_⟩
    · beta_reduce
      split <;> exact hfolderLive
    · beta_reduce
      split <;> exact hfolderType

/-- Rows that lose their category stay where they are. -/
theorem BelowFolders.withoutCategory {categoryId : String} (hplaced : BelowFolders kb) :
    BelowFolders (WikiState.withoutCategory kb categoryId) := by
  intro row' hmem' htype hlive y hy
  obtain ⟨row, hmem, rfl⟩ := mem_withoutCategory.mp hmem'
  have hsame :
    ∀ r : Page, (if r.categoryId = some categoryId then { r with categoryId := none } else r : Page).type = r.type ∧
      (if r.categoryId = some categoryId then { r with categoryId := none } else r : Page).deletedAt = r.deletedAt ∧
      (if r.categoryId = some categoryId then { r with categoryId := none } else r : Page).parentId = r.parentId := by
    intro r
    split <;> exact ⟨rfl, rfl, rfl⟩
  obtain ⟨hrowType, hrowLive, hrowParent⟩ := hsame row
  obtain ⟨folder, hfolder, hfolderLive, hfolderType⟩ :=
    isFolder_iff.mp (hplaced row hmem (hrowType ▸ htype) (hrowLive ▸ hlive) y (hrowParent ▸ hy))
  obtain ⟨hsameType, hsameLive, -⟩ := hsame folder
  refine isFolder_iff.mpr ⟨_, ?_, hsameLive.trans hfolderLive, hsameType.trans hfolderType⟩
  rw [WikiState.withoutCategory, Table.find_updateMany, hfolder]
  simp

/-- A call that meets the condition keeps the pages below folders. -/
theorem step_placed {call : RowOrder × WikiCall} (hinv : TreeInv st.kb) (hplaced : BelowFolders st.kb)
    (hkeeps : KeepsPlace st call.2) (h : st.step slugify call = some st') : BelowFolders st'.kb := by
  obtain ⟨order, call⟩ := call
  have hok : st.perform slugify order call = .ok st' := toOption_eq_some.mp h
  cases call with
  | create id input authorId actor =>
    obtain ⟨spaceId, hcreated⟩ := create_created hok
    exact hcreated.placed hplaced
  | update id input options =>
    obtain ⟨page, spaceId, rfl, hupdated⟩ := update_updated hok
    exact hupdated.placed hinv hplaced (hkeeps page (findLive_eq_some.mpr ⟨hupdated.found, hupdated.live⟩))
  | remove id deletedById now actor =>
    obtain ⟨page, -, hremoved⟩ := remove_removed hok
    exact hremoved.placed hplaced
  | restore id actor =>
    obtain ⟨page, rfl, hrestored⟩ := restore_restored hok
    exact hrestored.placed hinv hplaced (hkeeps page (findTrashed_eq_some.mpr ⟨hrestored.found, hrestored.trashed⟩))
  | permanentRemove id actor =>
    obtain ⟨page, -, hpurged⟩ := permanentRemove_purged hok
    exact hpurged.placed hplaced
  | updateCategory id input actor =>
    obtain ⟨_, _, _, -, -, hpages, -⟩ := updateCategory_ok hok
    intro page hpage htype hlive y hy
    rw [hpages] at hpage
    obtain ⟨folder, hfolder, hrest⟩ := isFolder_iff.mp (hplaced page hpage htype hlive y hy)
    exact isFolder_iff.mpr ⟨folder, by rw [hpages]; exact hfolder, hrest⟩
  | removeCategory id actor =>
    unfold WikiState.perform WikiState.removeCategory at hok
    cases hfound : st.kb.categories.find id with
    | none => simp [hfound] at hok
    | some category =>
      simp only [hfound] at hok
      obtain ⟨_, -, hok⟩ := bind_eq_ok.mp hok
      obtain ⟨_, -, hok⟩ := bind_eq_ok.mp hok
      cases pure_eq_ok.mp hok
      exact hplaced.withoutCategory

theorem buildTree_tree {slug spaceId : String} {category : Category}
    (h : findWikiCategory db.knowledge spaceId slug = some category) :
    (buildTree order db slug spaceId user).map CategoryTree.tree =
      placeTree order db user .category category.id (inCategory category.id) := by
  unfold buildTree
  simp only [h]
  cases placeTree order db user .category category.id (inCategory category.id) with
  | error e => rfl
  | ok tree => rfl

/-- **The navigation trees.** In every state that calls which keep the tree and the places reach from a wiki without
pages, for every user and all rules: a live page of a category that the user may read is shown once in the tree of the
category exactly if the user may also read the category and the folder of the page, and likewise a live page without a
category. -/
theorem navigation_trees (slugify : String → String) (st st' : WikiState) (calls : List (RowOrder × WikiCall))
    (hempty : st.kb.pages.rows = []) (hrun : Runs.run (WikiState.step slugify) st calls = some st')
    (halong : Runs.Along (WikiState.step slugify) (fun t call => KeepsTree t call.2 ∧ KeepsPlace t call.2) st calls)
    (order : RowOrder) (db : Database) (hdb : db.knowledge = st'.kb) (user : Option AuthenticatedUser) (page : Page)
    (hpage : page ∈ st'.kb.pages) (htype : page.type = .page) (hlive : page.deletedAt = none)
    (hread : CanRead order db user .page page.id) :
    (∀ slug spaceId category, findWikiCategory st'.kb spaceId slug = some category → page.categoryId = some category.id →
      (ShownIn ((buildTree order db slug spaceId user).map CategoryTree.tree) page ↔
        CanRead order db user .category category.id ∧ ∀ y, page.parentId = some y → CanRead order db user .page y)) ∧
    (page.categoryId = none →
      (ShownIn (buildUncategorizedTree order db page.spaceId user) page ↔
        CanRead order db user .space page.spaceId ∧ ∀ y, page.parentId = some y → CanRead order db user .page y)) := by
  have hnone : ∀ a, a ∉ st.kb.pages := fun a ha => by
    rw [Table.mem_def, hempty] at ha
    exact absurd ha List.not_mem_nil
  have hstart : TreeInv st.kb ∧ BelowFolders st.kb :=
    ⟨⟨fun a ha => absurd ha (hnone a), fun a ha => absurd ha (hnone a), fun a ha => absurd ha (hnone a),
      fun a ha => absurd ha (hnone a)⟩, fun a ha => absurd ha (hnone a)⟩
  have hreached : TreeInv st'.kb ∧ BelowFolders st'.kb := by
    have hstep : ∀ (s : WikiState) (call : RowOrder × WikiCall) (t : WikiState), TreeInv s.kb ∧ BelowFolders s.kb →
        KeepsTree s call.2 ∧ KeepsPlace s call.2 → s.step slugify call = some t → TreeInv t.kb ∧ BelowFolders t.kb := by
      rintro s call t ⟨hinv, hplaced⟩ ⟨htree, hplace⟩ hok
      exact ⟨(step_intact hinv hok).mp htree, step_placed hinv hplaced hplace hok⟩
    exact Runs.inv_run_along (I := fun t => TreeInv t.kb ∧ BelowFolders t.kb) hstep hstart halong hrun
  obtain ⟨hinv, hplaced⟩ := hreached
  rw [← hdb] at hinv hplaced hpage
  constructor
  · intro slug spaceId category hcategory hin
    rw [buildTree_tree (hdb ▸ hcategory)]
    refine shownIn_iff hinv hplaced (fun a b _ hsame => ?_) hpage htype hlive ?_ hread
    · rw [inCategory, inCategory, hsame]
    · rw [inCategory, hin, beq_self_eq_true]
  · intro hin
    refine shownIn_iff hinv hplaced (fun a b hspace hsame => ?_) hpage htype hlive ?_ hread
    · rw [uncategorized, uncategorized, hspace, hsame]
    · simp [uncategorized, hin]

namespace NavigationDemo

open TreeDemo

def newRow (id : String) (type : PageType) (parentId : Option String) : RowOrder × WikiCall :=
  (.stored, .create id ⟨id, none, type, "", none, .published, false, false, some (some "guides"), some parentId⟩ "admin"
    (some admin))

def trash (id : String) : RowOrder × WikiCall := (.stored, .remove id "admin" 0 (some admin))

/-- A page of a folder is restored from the trash after the folder has been put there. -/
def restoredBelowTrash : List (RowOrder × WikiCall) :=
  [newRow "folder" .folder none, newRow "page" .page (some "folder"), trash "page", trash "folder",
    (.stored, .restore "page" (some admin))]

end NavigationDemo

open NavigationDemo TreeDemo in
/-- A page of a category without folders. -/
theorem navigation_trees_root : ∃ st' page, Runs.run (WikiState.step id) start [newRow "page" .page none] = some st' ∧
    page ∈ st'.kb.pages ∧
    (∀ slug spaceId category, findWikiCategory st'.kb spaceId slug = some category → page.categoryId = some category.id →
      (ShownIn ((buildTree .stored st'.db slug spaceId (some admin)).map CategoryTree.tree) page ↔
        CanRead .stored st'.db (some admin) .category category.id ∧
          ∀ y, page.parentId = some y → CanRead .stored st'.db (some admin) .page y)) := by
  have hcheck : (Runs.run (WikiState.step id) start [newRow "page" .page none]).any fun st' =>
      (st'.kb.pages.find "page").any fun page => page.type == .page && page.deletedAt.isNone &&
        (st'.db.evaluate .stored admin ⟨.pages, .read, .page, page.id⟩).toOption.any ResourceAccessDecision.allowed := by
    decide +kernel
  obtain ⟨st', hrun, hcheck⟩ := (Option.any_eq_true _ _).mp hcheck
  obtain ⟨page, hpage, hcheck⟩ := (Option.any_eq_true _ _).mp hcheck
  simp only [Bool.and_eq_true, beq_iff_eq, Option.isNone_iff_eq_none] at hcheck
  obtain ⟨⟨htype, hlive⟩, hallowed⟩ := hcheck
  obtain ⟨d, hd, hallowed⟩ := (Option.any_eq_true _ _).mp hallowed
  have hread : CanRead .stored st'.db (some admin) .page page.id := by
    rintro actor ⟨⟩
    exact ⟨d, toOption_eq_some.mp hd, hallowed⟩
  refine ⟨st', page, hrun, (Table.find_eq_some.mp hpage).1, ?_⟩
  refine (navigation_trees id start st' _ rfl hrun ⟨⟨fun y l h _ => ?_, trivial⟩, fun _ _ => trivial⟩ .stored st'.db rfl
    (some admin) page (Table.find_eq_some.mp hpage).1 htype hlive hread).1
  cases h

open NavigationDemo TreeDemo in
/-- The restored page is in the category and can be read, and the tree of the category does not show it. -/
theorem restored_page_lost : ∃ st' page tree, Runs.run (WikiState.step id) start restoredBelowTrash = some st' ∧
    page ∈ st'.kb.pages ∧ page.type = .page ∧ page.deletedAt = none ∧ page.categoryId = some "guides" ∧
    CanRead .stored st'.db (some admin) .page page.id ∧
    buildTree .stored st'.db "guides" defaultSpaceId (some admin) = .ok tree ∧ tree.tree.ids.count page.id = 0 := by
  have hcheck : (Runs.run (WikiState.step id) start restoredBelowTrash).any fun st' =>
      (st'.kb.pages.find "page").any fun page => page.type == .page && page.deletedAt.isNone &&
        page.categoryId == some "guides" &&
        (st'.db.evaluate .stored admin ⟨.pages, .read, .page, page.id⟩).toOption.any ResourceAccessDecision.allowed &&
        (buildTree .stored st'.db "guides" defaultSpaceId (some admin)).toOption.any fun tree =>
          tree.tree.ids.count page.id == 0 := by
    decide +kernel
  obtain ⟨st', hrun, hcheck⟩ := (Option.any_eq_true _ _).mp hcheck
  obtain ⟨page, hpage, hcheck⟩ := (Option.any_eq_true _ _).mp hcheck
  simp only [Bool.and_eq_true, beq_iff_eq, Option.isNone_iff_eq_none] at hcheck
  obtain ⟨⟨⟨⟨htype, hlive⟩, hcategory⟩, hallowed⟩, htree⟩ := hcheck
  obtain ⟨d, hd, hallowed⟩ := (Option.any_eq_true _ _).mp hallowed
  obtain ⟨tree, hbuilt, hcount⟩ := (Option.any_eq_true _ _).mp htree
  refine ⟨st', page, tree, hrun, (Table.find_eq_some.mp hpage).1, htype, hlive, hcategory, ?_, toOption_eq_some.mp hbuilt,
    beq_iff_eq.mp hcount⟩
  rintro actor ⟨⟩
  exact ⟨d, toOption_eq_some.mp hd, hallowed⟩

end AdWiki.Wiki
