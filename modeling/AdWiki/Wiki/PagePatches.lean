import AdWiki.Wiki.PageCalls
import AdWiki.Wiki.SpaceKinds

/-!
# Requests that put pages into their places

Several `PATCH` requests, each of which writes the place of one page and its order among its siblings, are processed one
after the other.

* `Safe`: no request puts a page under one that moves, and a page that moves has none under it. Then the places on which a
  request depends are the same before and after the others.
* `run_patches`: in whatever order safe requests are processed, every one succeeds, and all that they ask for is written.
-/

namespace AdWiki.Wiki

open Access Fallible

/-- What the sidebar reads and writes of a page. -/
structure ServerFields where
  sortOrder : Int
  parentId : Option String
  categoryId : Option String
  deriving DecidableEq, Repr

structure Patch where
  id : String
  data : ServerFields
  deriving DecidableEq, Repr

def Patch.input (p : Patch) : UpdatePageInput :=
  { UpdatePageInput.empty with
    sortOrder := some p.data.sortOrder
    parentId := some p.data.parentId
    categoryId := some p.data.categoryId }

theorem Patch.input_moves (p : Patch) : p.input.assignmentChanged = true := rfl

/-- `PATCH /pages/:id`, with the order in which its queries return their rows. -/
def WikiState.patch (actor : Option AuthenticatedUser) (st : WikiState) (request : RowOrder × Patch) :
    Except HttpError WikiState :=
  st.update request.1 request.2.id request.2.input ⟨actor, none, none⟩

def WikiState.patchStep (actor : Option AuthenticatedUser) (st : WikiState) (request : RowOrder × Patch) :
    Option WikiState :=
  (st.patch actor request).toOption

/-- The server after it has processed the requests; one that fails changes nothing. -/
def WikiState.serveAll (actor : Option AuthenticatedUser) (st : WikiState)
    (requests : List (RowOrder × Patch)) : WikiState :=
  requests.foldl (fun st request => (st.patchStep actor request).getD st) st

variable {kb : KnowledgeBase} {st st' : WikiState} {order : RowOrder} {actor : Option AuthenticatedUser}
  {patches done : List Patch}
  {p : Patch} {id : String}

theorem serveAll_of_run {requests : List (RowOrder × Patch)}
    (h : Runs.run (WikiState.patchStep actor) st requests = some st') :
    st.serveAll actor requests = st' := by
  induction requests generalizing st with
  | nil => exact Option.some.inj h
  | cons request requests ih =>
    obtain ⟨next, hstep, hrun⟩ := Runs.run_cons.mp h
    have hnext : st.serveAll actor (request :: requests) = next.serveAll actor requests := by
      unfold WikiState.serveAll
      rw [List.foldl_cons, hstep, Option.getD_some]
    rw [hnext, ih hrun]

/-! ## Hierarchies -/

/-- The columns of a page that its hierarchy is made of. -/
def Page.place (row : Page) : String × String × String × Option String × Option String :=
  (row.id, row.title, row.spaceId, row.categoryId, row.parentId)

theorem map_place_eq {a b : Option Page} (h : a.map Page.place = b.map Page.place) :
    (a = none ∧ b = none) ∨ ∃ row row', a = some row ∧ b = some row' ∧ row.id = row'.id ∧ row.title = row'.title ∧
      row.spaceId = row'.spaceId ∧ row.categoryId = row'.categoryId ∧ row.parentId = row'.parentId := by
  cases a with
  | none => exact Or.inl ⟨rfl, (Option.map_eq_none_iff.mp h.symm)⟩
  | some row =>
    obtain ⟨row', hb, heq⟩ := Option.map_eq_some_iff.mp h.symm
    simp only [Page.place, Prod.mk.injEq] at heq
    obtain ⟨hid, htitle, hspace, hcategory, hparent⟩ := heq
    exact Or.inr ⟨row, row', rfl, hb, hid.symm, htitle.symm, hspace.symm, hcategory.symm, hparent.symm⟩

/-- The loop over the parents sees the places of the pages on its way only. -/
theorem climbPages_congr {pages pages' : Table Page.id} {S : String → Prop}
    (hsame : ∀ x, S x → (pages'.find x).map Page.place = (pages.find x).map Page.place)
    (hclosed : ∀ x row y, S x → pages.find x = some row → row.parentId = some y → S y) (n : Nat) (climb : Climb)
    (x : Option String)
    (hx : ∀ y, x = some y → S y) : climbPages pages' id n climb x = climbPages pages id n climb x := by
  induction n generalizing climb x with
  | zero => cases x <;> rfl
  | succ n ih =>
    cases x with
    | none => rfl
    | some y =>
      have hy := hx y rfl
      unfold climbPages
      rcases map_place_eq (hsame y hy) with ⟨h', h⟩ | ⟨row', row, h', h, hid, htitle, hspace, hcategory, hparent⟩
      · rw [h, h']
      · have htarget : pageTarget row' = pageTarget row := by rw [pageTarget, pageTarget, hid, htitle]
        simp only [h, h', htarget, hspace, hcategory, hparent]
        rw [ih _ row.parentId fun z hz => hclosed y row z hy h hz]

/-- The other tables, with other pages. -/
def WikiState.withPages (st : WikiState) (pages : Table Page.id) : Database :=
  { st.db with knowledge := { st.kb with pages := pages } }

theorem assertAllowed_congr {request : AccessRequest} (hdb : st'.db = st.withPages st'.kb.pages)
    (h : resolveHierarchy order { st.kb with pages := st'.kb.pages } request.targetType request.targetId =
      resolveHierarchy order st.kb request.targetType request.targetId) :
    st'.assertAllowed order actor request = st.assertAllowed order actor request := by
  unfold WikiState.assertAllowed
  cases actor with
  | none => rfl
  | some actor =>
    have heval : st'.db.evaluate order actor request = st.db.evaluate order actor request := by
      rw [hdb]
      unfold Database.evaluate WikiState.withPages
      dsimp only
      rw [h]
      rfl
    dsimp only
    unfold Database.assertAllowed
    rw [heval]

/-- Where there are no rules, the order of the rows does not matter. -/
theorem assertAllowed_withoutRules {request : AccessRequest} (hentries : st.db.resourceAclEntries.rows = [])
    (hboundaries : st.db.resourceAclBoundaries.rows = []) (htype : request.targetType ≠ .note) :
    st.assertAllowed order actor request = st.assertAllowed .stored actor request := by
  have hnil : ∀ (o : RowOrder) {α κ : Type} {key : α → κ} (t : Table key) (p : α → Bool), t.rows = [] →
      t.findMany o p = [] := by
    intro o α κ key t p hrows
    have hperm := o.perm (t.rows.filter p)
    rw [hrows, List.filter_nil] at hperm
    unfold Table.findMany
    rw [hrows]
    exact List.perm_nil.mp hperm
  have hrules :
      ∀ userId action keys, st.db.loadRules order userId action keys = st.db.loadRules .stored userId action keys := by
    intro userId action keys
    simp only [Database.loadRules, hnil _ _ _ hentries, hnil _ _ _ hboundaries]
  have hhierarchy : resolveHierarchy order st.db.knowledge request.targetType request.targetId =
      resolveHierarchy .stored st.db.knowledge request.targetType request.targetId := by
    cases hkind : request.targetType with
    | note => exact absurd hkind htype
    | space => rfl
    | category => rfl
    | page => rfl
    | standard => rfl
  unfold WikiState.assertAllowed Database.assertAllowed Database.evaluate
  simp only [hrules, hhierarchy]

/-- After its first page the loop changes neither the space nor the category. -/
theorem climbPages_keeps {pages : Table Page.id} {n : Nat} {climb climb' : Climb} {x : Option String} {spaceId : String}
    (h : climbPages pages id n climb x = .ok climb') (hvisited : climb.visited ≠ [])
    (hspace : climb.spaceId = some spaceId) :
    climb'.spaceId = some spaceId ∧ climb'.categoryId = climb.categoryId := by
  induction n generalizing climb x with
  | zero =>
    cases x with
    | none =>
      cases h
      exact ⟨hspace, rfl⟩
    | some y => cases h
  | succ n ih =>
    cases x with
    | none =>
      cases h
      exact ⟨hspace, rfl⟩
    | some y =>
      unfold climbPages at h
      obtain ⟨-, h⟩ := ite_error_eq_ok.mp h
      split at h
      · cases h
      · next page hfind =>
        obtain ⟨hsame, h⟩ := ite_error_eq_ok.mp h
        obtain ⟨hcategory, h⟩ := ite_error_eq_ok.mp h
        have hpage : page.spaceId = spaceId := by
          by_contra hne
          exact hsame (by simpa [hspace] using fun heq => hne heq.symm)
        have hsamecategory : page.categoryId = climb.categoryId := by
          by_contra hne
          exact hcategory ⟨hvisited, hne⟩
        obtain ⟨hs, hc⟩ := ih h (by simp) (by rw [hpage])
        refine ⟨hs, hc.trans ?_⟩
        rw [hsamecategory, Option.or_self]

/-- The page lies in the space of its category, and in the space and the category of its parent. -/
structure InLine (kb : KnowledgeBase) (row : Page) : Prop where
  category : CategoryIn kb row.categoryId row.spaceId
  parent : ∀ y, row.parentId = some y → ∃ above, kb.pages.find y = some above ∧ above.spaceId = row.spaceId ∧
    above.categoryId = row.categoryId

theorem categoryIn_of_level {categoryId : Option String} {spaceId message : String} {resource : Resource}
    {level : List ResolvedResourceTarget} (h : categoryLevel kb categoryId spaceId resource message = .ok level) :
    CategoryIn kb categoryId spaceId := by
  rintro c rfl
  unfold categoryLevel at h
  dsimp only at h
  split at h
  · cases h
  · next category hfind =>
    obtain ⟨hspace, -⟩ := ite_error_eq_ok.mp h
    exact ⟨category, hfind, not_not.mp hspace⟩

theorem inLine_of_hierarchy {row : Page} {r : ResolvedTargetHierarchy} (h : pageHierarchy kb id = .ok r)
    (hrow : kb.pages.find id = some row) : InLine kb row := by
  unfold pageHierarchy at h
  obtain ⟨climb, hclimb, h⟩ := bind_eq_ok.mp h
  have hfirst :
      climbPages kb.pages id 99 ⟨[id], [pageTarget row], row.categoryId, some row.spaceId⟩ row.parentId = .ok climb := by
    unfold climbPages at hclimb
    simpa [hrow] using hclimb
  obtain ⟨hspace, hcategory⟩ := climbPages_keeps hfirst (by simp) rfl
  rw [hspace] at h
  obtain ⟨level, hlevel, -⟩ := bind_eq_ok.mp h
  rw [hcategory] at hlevel
  refine ⟨categoryIn_of_level hlevel, fun y hy => ?_⟩
  rw [hy] at hfirst
  unfold climbPages at hfirst
  obtain ⟨-, hfirst⟩ := ite_error_eq_ok.mp hfirst
  split at hfirst
  · cases hfirst
  · next above habove =>
    obtain ⟨hsame, hfirst⟩ := ite_error_eq_ok.mp hfirst
    obtain ⟨hother, -⟩ := ite_error_eq_ok.mp hfirst
    refine ⟨above, habove, ?_, ?_⟩
    · by_contra hne
      exact hsame (by simpa using fun heq => hne heq.symm)
    · by_contra hne
      exact hother ⟨by simp, hne⟩

/-- A user who may update the page. -/
def MayUpdate (st : WikiState) (actor : AuthenticatedUser) (id : String) : Prop :=
  ∀ order, st.assertAllowed order (some actor) ⟨.pages, .update, .page, id⟩ = .ok ()

theorem MayUpdate.inLine {user : AuthenticatedUser} {row : Page} (h : MayUpdate st user id)
    (hrow : st.kb.pages.find id = some row) : InLine st.kb row := by
  obtain ⟨decision, hdecision, -⟩ := map_eq_ok (h .stored)
  unfold Database.assertAllowed at hdecision
  obtain ⟨evaluated, hevaluated, hdecision⟩ := bind_eq_ok.mp hdecision
  unfold Database.evaluate at hevaluated
  obtain ⟨-, hevaluated⟩ := ite_error_eq_ok.mp hevaluated
  split at hevaluated
  · cases hevaluated
    have hdenied : globalDenied.allowed = false := rfl
    rw [hdenied] at hdecision
    cases hdecision
  · obtain ⟨hierarchy, hhierarchy, -⟩ := bind_eq_ok.mp hevaluated
    exact inLine_of_hierarchy hhierarchy hrow

/-! ## One request -/

/-- What an update that moves the page checks of the new place. -/
structure Fits (kb : KnowledgeBase) (input : Assignment) (row : Page) : Prop where
  category : ∀ c, input.newCategoryId (some row) = some c → ∃ category, kb.categories.find c = some category ∧
    category.scope = .wiki ∧ category.spaceId = kb.requestedSpace input row
  folder : ∀ y, input.newParentId (some row) = some y → y ≠ row.id ∧ ∃ folder, kb.findLive y = some folder ∧
    folder.type = .folder ∧ folder.spaceId = kb.requestedSpace input row ∧
      folder.categoryId = input.newCategoryId (some row)
  enabled : Enabled kb (kb.requestedSpace input row) .wiki

theorem Fits.resolves {input : Assignment} {row : Page} (h : Fits kb input row) :
    kb.resolvePageSpace input (some row) = .ok (kb.requestedSpace input row) := by
  obtain ⟨space, hspace, hkind⟩ := h.enabled
  have hcandidate :
    (input.spaceId.or <| (((input.newCategoryId (some row)).bind kb.categories.find).map Category.spaceId).or <|
      (((input.newParentId (some row)).bind kb.findLive).map Page.spaceId).or (some row.spaceId)).getD defaultSpaceId =
        kb.requestedSpace input row := by
    unfold KnowledgeBase.requestedSpace
    cases input.spaceId with
    | some _ => rfl
    | none =>
      cases ((input.newCategoryId (some row)).bind kb.categories.find).map Category.spaceId with
      | some _ => rfl
      | none => cases ((input.newParentId (some row)).bind kb.findLive).map Page.spaceId <;> rfl
  unfold KnowledgeBase.resolvePageSpace
  refine throwIf_bind_eq_ok.mpr ⟨?_, bind_eq_ok.mpr ⟨(), throwIf_eq_ok.mpr ?_, throwIf_bind_eq_ok.mpr ⟨?_,
    bind_eq_ok.mpr ⟨kb.requestedSpace input row, ?_, throwIf_bind_eq_ok.mpr ⟨?_, rfl⟩⟩⟩⟩⟩
  · rintro ⟨hsome, heq⟩
    exact (h.folder row.id heq).1 rfl
  · rintro ⟨hsome, hnot⟩
    obtain ⟨c, hc⟩ := Option.isSome_iff_exists.mp hsome
    obtain ⟨category, hfind, hscope, -⟩ := h.category c hc
    exact hnot (by simp [hc, hfind, hscope])
  · rintro ⟨hsome, hnot⟩
    obtain ⟨y, hy⟩ := Option.isSome_iff_exists.mp hsome
    obtain ⟨-, folder, hfind, htype, -⟩ := h.folder y hy
    exact hnot (by simp [hy, hfind, htype])
  · unfold KnowledgeBase.resolveOpenSpace
    rw [Option.map_some, hcandidate, hspace]
    dsimp only
    rw [if_pos (List.contains_iff_mem.mpr hkind), (Table.find_eq_some.mp hspace).2]
  · rintro (hother | hother | hother)
    · obtain ⟨category, hfound, hne⟩ := (Option.any_eq_true _ _).mp hother
      obtain ⟨c, hc, hfind⟩ := Option.bind_eq_some_iff.mp hfound
      obtain ⟨category', hfind', -, hsame⟩ := h.category c hc
      cases hfind.symm.trans hfind'
      simp [hsame] at hne
    · obtain ⟨folder, hfound, hne⟩ := (Option.any_eq_true _ _).mp hother
      obtain ⟨y, hy, hfind⟩ := Option.bind_eq_some_iff.mp hfound
      obtain ⟨-, folder', hfind', -, hsame, -⟩ := h.folder y hy
      cases hfind.symm.trans hfind'
      simp [hsame] at hne
    · obtain ⟨folder, hfound, hne⟩ := (Option.any_eq_true _ _).mp hother
      obtain ⟨y, hy, hfind⟩ := Option.bind_eq_some_iff.mp hfound
      obtain ⟨-, folder', hfind', -, -, hsame⟩ := h.folder y hy
      cases hfind.symm.trans hfind'
      simp [hsame] at hne

/-- The row after the request. -/
def Page.patched (row : Page) (kb : KnowledgeBase) (p : Patch) : Page :=
  row.write p.input (kb.requestedSpace p.input.assignment row) row

/-- What a request on a page finds when it succeeds. -/
structure Patchable (st : WikiState) (user : AuthenticatedUser) (order : RowOrder) (p : Patch) (row : Page) : Prop where
  found : st.kb.findLive p.id = some row
  allowed : st.assertAllowed order (some user) ⟨.pages, .update, .page, p.id⟩ = .ok ()
  fits : Fits st.kb p.input.assignment row
  destination : st.assertPageDestination order (some user) p.input.assignment
    (st.kb.requestedSpace p.input.assignment row) .update
    (some row) = .ok ()
  leaf : st.kb.requestedSpace p.input.assignment row ≠ row.spaceId → ∀ below ∈ st.kb.pages, below.parentId = some p.id →
    below.deletedAt.isSome
  author : (st.db.directory.users.find row.authorId).isSome

variable {user : AuthenticatedUser} {row : Page}

theorem Patchable.patch (h : Patchable st user order p row) : ∃ st', st.patch (some user) (order, p) = .ok st' ∧
    st'.db = st.withPages st'.kb.pages ∧
    ∀ x, st'.kb.pages.find x = if x = p.id then some (row.patched st.kb p) else st.kb.pages.find x := by
  obtain ⟨hfind, -⟩ := findLive_eq_some.mp h.found
  have hid : row.id = p.id := (Table.find_eq_some.mp hfind).2
  have hspace : st.updatedSpace order p.input row (some user) = .ok (st.kb.requestedSpace p.input.assignment row) := by
    unfold WikiState.updatedSpace
    rw [if_pos p.input_moves, h.fits.resolves]
    exact bind_eq_ok.mpr ⟨_, rfl, bind_eq_ok.mpr ⟨(), h.destination, rfl⟩⟩
  unfold WikiState.patch WikiState.update
  rw [h.found]
  refine ⟨_, bind_eq_ok.mpr ⟨(), h.allowed, throwIf_bind_eq_ok.mpr ⟨by simp, bind_eq_ok.mpr ⟨_, hspace,
    throwIf_bind_eq_ok.mpr ⟨?_, throwIf_bind_eq_ok.mpr ⟨?_, rfl⟩⟩⟩⟩⟩, rfl, fun x => ?_⟩
  · rintro ⟨hne, hpos⟩
    obtain ⟨below, hbelow, hchild⟩ := List.countP_pos_iff.mp hpos
    simp only [Bool.and_eq_true, beq_iff_eq] at hchild
    have htrashed := h.leaf hne below hbelow hchild.1
    rw [Option.isNone_iff_eq_none.mp hchild.2] at htrashed
    cases htrashed
  · have hauthor := h.author
    simp only [Option.getD_none, Option.isNone_iff_eq_none]
    intro hnone
    rw [hnone] at hauthor
    cases hauthor
  · rw [← hid] at hfind ⊢
    exact find_written _ (fun _ => Page.write_id) hfind x

/-- A request that succeeds leads to a space that takes pages, and if the page has no parent then, to a category or a
space in which the user may update pages. -/
theorem patch_asks (h : st.patch (some user) (order, p) = .ok st') : ∃ row, st.kb.findLive p.id = some row ∧
    Enabled st.kb (st.kb.requestedSpace p.input.assignment row) .wiki ∧
    st.assertPageDestination order (some user) p.input.assignment (st.kb.requestedSpace p.input.assignment row) .update
      (some row) = .ok () := by
  unfold WikiState.patch WikiState.update at h
  split at h
  · cases h
  · next row hfound =>
    obtain ⟨_, -, h⟩ := bind_eq_ok.mp h
    obtain ⟨-, h⟩ := throwIf_bind_eq_ok.mp h
    obtain ⟨spaceId, hspace, -⟩ := bind_eq_ok.mp h
    unfold WikiState.updatedSpace at hspace
    rw [if_pos p.input_moves] at hspace
    obtain ⟨resolved, hresolved, hspace⟩ := bind_eq_ok.mp hspace
    obtain ⟨_, hdestination, -⟩ := bind_eq_ok.mp hspace
    have hrequested := resolvePageSpace_requested hresolved
    rw [hrequested] at hresolved hdestination
    exact ⟨row, hfound, (resolvePageSpace_placed hresolved).1, hdestination⟩

/-! ## Several requests -/

/-- A request wants the page to have another parent or another category. -/
def Moves (st : WikiState) (patches : List Patch) (x : String) : Prop :=
  ∃ p ∈ patches, p.id = x ∧ ∃ row, st.kb.findLive x = some row ∧
    ¬(row.parentId = p.data.parentId ∧ row.categoryId = p.data.categoryId)

/-- Requests on some of the pages that are `shown`, all of which the user may update. -/
structure Safe (st : WikiState) (user : AuthenticatedUser) (shown : String → Prop) (patches : List Patch) : Prop where
  nodup : (patches.map Patch.id).Nodup
  page : ∀ x, shown x → ∃ row, st.kb.findLive x = some row
  allowed : ∀ x, shown x → MayUpdate st user x
  above : ∀ x row y, shown x → st.kb.findLive x = some row → row.parentId = some y → shown y
  patched : ∀ p ∈ patches, shown p.id
  folder : ∀ p ∈ patches, ∀ y, p.data.parentId = some y → shown y ∧ y ≠ p.id ∧ ¬Moves st patches y ∧
    ∃ folder, st.kb.findLive y = some folder ∧ folder.type = .folder ∧ folder.categoryId = p.data.categoryId
  category : ∀ p ∈ patches, ∀ c, p.data.categoryId = some c →
    ∃ category, st.kb.categories.find c = some category ∧ category.scope = .wiki
  leaf : ∀ x, Moves st patches x → ∀ below ∈ st.kb.pages, below.parentId = some x → below.deletedAt.isSome
  enabled : ∀ p ∈ patches, ∀ row, st.kb.findLive p.id = some row →
    Enabled st.kb (st.kb.requestedSpace p.input.assignment row) .wiki
  root : ∀ p ∈ patches, p.data.parentId = none → ∀ order row, st.kb.findLive p.id = some row →
    st.assertPageDestination order (some user) p.input.assignment (st.kb.requestedSpace p.input.assignment row) .update
      (some row) = .ok ()
  author : ∀ row ∈ st.kb.pages, (st.db.directory.users.find row.authorId).isSome

variable {shown : String → Prop} {x y : String}

/-- A request that leaves the page where it is leaves it in its space. -/
theorem InLine.requestedSpace (h : InLine kb row) (hparent : row.parentId = p.data.parentId)
    (hcategory : row.categoryId = p.data.categoryId) : kb.requestedSpace p.input.assignment row = row.spaceId := by
  have hc : p.input.assignment.newCategoryId (some row) = row.categoryId := hcategory.symm
  have hp : p.input.assignment.newParentId (some row) = row.parentId := hparent.symm
  have hs : p.input.assignment.spaceId = none := rfl
  unfold KnowledgeBase.requestedSpace
  rw [hc, hp, hs, Option.none_or]
  cases hcat : row.categoryId.bind kb.categories.find with
  | some category =>
    obtain ⟨c, hsome, hfind⟩ := Option.bind_eq_some_iff.mp hcat
    obtain ⟨category', hfind', hspace⟩ := h.category c hsome
    cases hfind.symm.trans hfind'
    simpa using hspace
  | none =>
    cases hpar : row.parentId.bind kb.findLive with
    | none => rfl
    | some above =>
      obtain ⟨y, hsome, hfind⟩ := Option.bind_eq_some_iff.mp hpar
      obtain ⟨above', hfind', hspace, -⟩ := h.parent y hsome
      cases (findLive_eq_some.mp hfind).1.symm.trans hfind'
      simpa using hspace

theorem Safe.inLine (h : Safe st user shown patches) (hx : shown x) (hrow : st.kb.findLive x = some row) :
    InLine st.kb row :=
  (h.allowed x hx).inLine (findLive_eq_some.mp hrow).1

/-- The space of a page that does not move is the one that it has. -/
theorem Safe.space (h : Safe st user shown patches) (hp : p ∈ patches) (hrow : st.kb.findLive p.id = some row)
    (hstays : ¬Moves st patches p.id) : st.kb.requestedSpace p.input.assignment row = row.spaceId ∧
      row.parentId = p.data.parentId ∧ row.categoryId = p.data.categoryId := by
  have hsame : row.parentId = p.data.parentId ∧ row.categoryId = p.data.categoryId := by
    by_contra hne
    exact hstays ⟨p, hp, rfl, row, hrow, hne⟩
  obtain ⟨hparent, hcategory⟩ := hsame
  exact ⟨(h.inLine (h.patched p hp) hrow).requestedSpace hparent hcategory, hparent, hcategory⟩

/-- A page that has live pages under it does not move. -/
theorem Safe.parent_stays (h : Safe st user shown patches) (hrow : st.kb.findLive x = some row)
    (hy : row.parentId = some y) :
    ¬Moves st patches y := by
  intro hmoves
  obtain ⟨hfind, hlive⟩ := findLive_eq_some.mp hrow
  have htrashed := h.leaf y hmoves row (Table.find_eq_some.mp hfind).1 hy
  rw [hlive] at htrashed
  cases htrashed

/-- The state after some of the requests: their pages have been written, and nothing else. -/
structure Mid (st st' : WikiState) (done : List Patch) : Prop where
  db : st'.db = st.withPages st'.kb.pages
  waiting : ∀ x, x ∉ done.map Patch.id → st'.kb.pages.find x = st.kb.pages.find x
  written : ∀ p ∈ done, ∀ row, st.kb.findLive p.id = some row → st'.kb.pages.find p.id = some (row.patched st.kb p)

namespace Mid

variable (hm : Mid st st' done) (h : Safe st user shown patches) (hdone : ∀ p ∈ done, p ∈ patches)

include hm

theorem kb_eq : st'.kb = { st.kb with pages := st'.kb.pages } := congrArg Database.knowledge hm.db

include h hdone

theorem place (hx : shown x) (hstays : ¬Moves st patches x) :
    (st'.kb.pages.find x).map Page.place = (st.kb.pages.find x).map Page.place := by
  by_cases hmem : x ∈ done.map Patch.id
  · obtain ⟨p, hp, rfl⟩ := List.mem_map.mp hmem
    obtain ⟨row, hrow⟩ := h.page p.id hx
    obtain ⟨hspace, hparent, hcategory⟩ := h.space (hdone p hp) hrow hstays
    rw [hm.written p hp row hrow, (findLive_eq_some.mp hrow).1]
    have hnew : (row.patched st.kb p).place = (row.id, row.title, st.kb.requestedSpace p.input.assignment row,
        p.data.categoryId, p.data.parentId) := rfl
    rw [Option.map_some, Option.map_some, hnew, hspace, ← hparent, ← hcategory]
    rfl
  · rw [hm.waiting x hmem]

/-- The access check on a page that waits, or does not move, has the answer that it has before the requests. -/
theorem assertAllowed (order : RowOrder) (hx : shown x) (hkept : x ∉ done.map Patch.id ∨ ¬Moves st patches x) :
    st'.assertAllowed order (some user) ⟨.pages, .update, .page, x⟩ = .ok () := by
  rw [← h.allowed x hx order]
  apply assertAllowed_congr hm.db
  have hsame : ∀ z, z = x ∨ shown z ∧ ¬Moves st patches z →
      (st'.kb.pages.find z).map Page.place = (st.kb.pages.find z).map Page.place := by
    rintro z (rfl | ⟨hz, hstays⟩)
    · rcases hkept with hwaits | hstays
      · rw [hm.waiting z hwaits]
      · exact hm.place h hdone hx hstays
    · exact hm.place h hdone hz hstays
  have hclosed : ∀ z row y, z = x ∨ shown z ∧ ¬Moves st patches z → st.kb.pages.find z = some row →
    row.parentId = some y →
      y = x ∨ shown y ∧ ¬Moves st patches y := by
    intro z row y hz hfind hy
    have hshown : shown z := by
      rcases hz with rfl | ⟨hz, -⟩
      · exact hx
      · exact hz
    obtain ⟨row', hrow'⟩ := h.page z hshown
    cases hfind.symm.trans (findLive_eq_some.mp hrow').1
    exact Or.inr ⟨h.above z row y hshown hrow' hy, h.parent_stays hrow' hy⟩
  show pageHierarchy _ x = pageHierarchy _ x
  unfold pageHierarchy
  dsimp only
  rw [climbPages_congr hsame hclosed 100 _ (some x) fun y hy => Or.inl (Option.some.inj hy).symm]
  rfl

/-- A folder that does not move is still one, in the same place. -/
theorem folder {folder : Page} (hy : shown y) (hstays : ¬Moves st patches y) (hfolder : st.kb.findLive y = some folder) :
    ∃ folder', st'.kb.findLive y = some folder' ∧ folder'.type = folder.type ∧ folder'.spaceId = folder.spaceId ∧
      folder'.categoryId = folder.categoryId := by
  obtain ⟨hfind, hlive⟩ := findLive_eq_some.mp hfolder
  by_cases hmem : y ∈ done.map Patch.id
  · obtain ⟨p, hp, rfl⟩ := List.mem_map.mp hmem
    obtain ⟨hspace, hparent, hcategory⟩ := h.space (hdone p hp) hfolder hstays
    exact ⟨_, findLive_eq_some.mpr ⟨hm.written p hp folder hfolder, hlive⟩, rfl, hspace, hcategory.symm⟩
  · exact ⟨folder, findLive_eq_some.mpr ⟨(hm.waiting y hmem).trans hfind, hlive⟩, rfl, rfl, rfl⟩

theorem requestedSpace (hp : p ∈ patches) (row : Page) :
    st'.kb.requestedSpace p.input.assignment row = st.kb.requestedSpace p.input.assignment row := by
  have hcategories : st'.kb.categories = st.kb.categories := by rw [hm.kb_eq]
  have hparent : ((p.data.parentId.bind st'.kb.findLive).map Page.spaceId) =
      (p.data.parentId.bind st.kb.findLive).map Page.spaceId := by
    cases hy : p.data.parentId with
    | none => rfl
    | some y =>
      obtain ⟨hshown, -, hstays, folder, hfolder, -⟩ := h.folder p hp y hy
      obtain ⟨folder', hfolder', -, hspace, -⟩ := hm.folder h hdone hshown hstays hfolder
      rw [Option.bind_some, Option.bind_some, hfolder, hfolder', Option.map_some, Option.map_some, hspace]
  have hnew : p.input.assignment.newParentId (some row) = p.data.parentId := rfl
  unfold KnowledgeBase.requestedSpace
  rw [hcategories, hnew, hparent]

/-- The place that a request asks for is as good as before the others. -/
theorem fits (hp : p ∈ patches) (hrow : st.kb.findLive p.id = some row) : Fits st'.kb p.input.assignment row := by
  have hspace := hm.requestedSpace h hdone hp row
  have hcategories : st'.kb.categories = st.kb.categories := by rw [hm.kb_eq]
  have hspaces : st'.kb.spaces = st.kb.spaces := by rw [hm.kb_eq]
  have hid : row.id = p.id := (Table.find_eq_some.mp (findLive_eq_some.mp hrow).1).2
  refine ⟨fun c hc => ?_, fun y hy => ?_, ?_⟩
  · obtain ⟨category, hfind, hscope⟩ := h.category p hp c hc
    rw [hcategories, hspace]
    refine ⟨category, hfind, hscope, ?_⟩
    have hrequested : st.kb.requestedSpace p.input.assignment row = category.spaceId := by
      have hnew : p.input.assignment.newCategoryId (some row) = some c := hc
      have hs : p.input.assignment.spaceId = none := rfl
      unfold KnowledgeBase.requestedSpace
      rw [hnew, hs, Option.bind_some, hfind]
      rfl
    exact hrequested.symm
  · obtain ⟨hshown, hne, hstays, folder, hfolder, htype, hcategory⟩ := h.folder p hp y hy
    obtain ⟨folder', hfolder', htype', hspace', hcategory'⟩ := hm.folder h hdone hshown hstays hfolder
    have hbefore : folder.spaceId = st.kb.requestedSpace p.input.assignment row := by
      have hnew : p.input.assignment.newParentId (some row) = some y := hy
      have hs : p.input.assignment.spaceId = none := rfl
      have hcat : p.input.assignment.newCategoryId (some row) = folder.categoryId := hcategory.symm
      unfold KnowledgeBase.requestedSpace
      rw [hnew, hs, hcat, Option.bind_some, hfolder]
      cases hfind : folder.categoryId.bind st.kb.categories.find with
      | none => rfl
      | some category =>
        obtain ⟨c, hc, hfound⟩ := Option.bind_eq_some_iff.mp hfind
        obtain ⟨category', hfound', hin⟩ := (h.inLine hshown hfolder).category c hc
        cases hfound.symm.trans hfound'
        exact hin.symm
    exact ⟨fun heq => hne (heq.trans hid), folder', hfolder', htype'.trans htype, by rw [hspace', hspace, hbefore],
      hcategory'.trans hcategory⟩
  · obtain ⟨space, hfind, hkind⟩ := h.enabled p hp row hrow
    rw [hspace]
    exact ⟨space, by rw [hspaces, hfind], hkind⟩

theorem destination (hp : p ∈ patches) (hrow : st.kb.findLive p.id = some row) :
    st'.assertPageDestination order (some user) p.input.assignment (st'.kb.requestedSpace p.input.assignment row) .update
      (some row) = .ok () := by
  rw [hm.requestedSpace h hdone hp]
  have hnew : p.input.assignment.newParentId (some row) = p.data.parentId := rfl
  cases hy : p.data.parentId with
  | some y =>
    obtain ⟨hshown, -, hstays, -⟩ := h.folder p hp y hy
    have hallowed := hm.assertAllowed h hdone order hshown (Or.inr hstays)
    unfold WikiState.assertPageDestination
    rw [hnew, hy]
    exact hallowed
  | none =>
    have hroot := h.root p hp hy order row hrow
    unfold WikiState.assertPageDestination at hroot ⊢
    rw [hnew, hy] at hroot ⊢
    rw [← hroot]
    apply assertAllowed_congr hm.db
    cases p.input.assignment.newCategoryId (some row) <;> rfl

/-- Nothing is under a page that moves, before and after the other requests. -/
theorem leaf (hmoves : Moves st patches p.id) :
    ∀ below ∈ st'.kb.pages, below.parentId = some p.id → below.deletedAt.isSome := by
  intro below hbelow hparent
  have hfind : st'.kb.pages.find below.id = some below := Table.find_of_mem hbelow
  by_cases hmem : below.id ∈ done.map Patch.id
  · obtain ⟨q, hq, hid⟩ := List.mem_map.mp hmem
    obtain ⟨old, hold⟩ := h.page q.id (h.patched q (hdone q hq))
    have hwritten := hm.written q hq old hold
    rw [hid, hfind] at hwritten
    have hrow : below = old.patched st.kb q := Option.some.inj hwritten
    have hasked : q.data.parentId = some p.id := by rw [← hparent, hrow]; rfl
    exact absurd hmoves (h.folder q (hdone q hq) p.id hasked).2.2.1
  · rw [hm.waiting below.id hmem] at hfind
    exact h.leaf p.id hmoves below (Table.find_eq_some.mp hfind).1 hparent

theorem patchable (order : RowOrder) (hp : p ∈ patches) (hwaits : p.id ∉ done.map Patch.id)
    (hrow : st.kb.findLive p.id = some row) :
    Patchable st' user order p row := by
  obtain ⟨hfind, hlive⟩ := findLive_eq_some.mp hrow
  have hshown := h.patched p hp
  refine ⟨findLive_eq_some.mpr ⟨(hm.waiting p.id hwaits).trans hfind, hlive⟩,
    hm.assertAllowed h hdone order hshown (Or.inl hwaits),
    hm.fits h hdone hp hrow, hm.destination h hdone hp hrow, fun hspace => ?_, ?_⟩
  · rw [hm.requestedSpace h hdone hp] at hspace
    refine hm.leaf h hdone ?_
    by_contra hstays
    exact hspace (h.space hp hrow hstays).1
  · rw [hm.db]
    exact h.author row (Table.find_eq_some.mp hfind).1

/-- One more request. -/
theorem step (order : RowOrder) (hp : p ∈ patches) (hwaits : p.id ∉ done.map Patch.id) :
    ∃ st'', st'.patchStep (some user) (order, p) = some st'' ∧ Mid st st'' (done ++ [p]) := by
  obtain ⟨row, hrow⟩ := h.page p.id (h.patched p hp)
  obtain ⟨st'', hpatch, hdb, hfind⟩ := (hm.patchable h hdone order hp hwaits hrow).patch
  have hrowid : row.patched st'.kb p = row.patched st.kb p := by
    unfold Page.patched
    rw [hm.requestedSpace h hdone hp]
  refine ⟨st'', toOption_eq_some.mpr hpatch, ?_, fun x hx => ?_, fun q hq old hold => ?_⟩
  · rw [hdb, WikiState.withPages, WikiState.withPages, hm.kb_eq, hm.db]
    rfl
  · rw [List.map_append, List.mem_append, not_or] at hx
    have hne : x ≠ p.id := fun heq => hx.2 (List.mem_singleton.mpr heq)
    rw [hfind, if_neg hne, hm.waiting x hx.1]
  · rw [hfind]
    rcases List.mem_append.mp hq with hq | hq
    · have hne : q.id ≠ p.id := fun heq => hwaits (List.mem_map.mpr ⟨q, hq, heq⟩)
      rw [if_neg hne, hm.written q hq old hold]
    · obtain rfl := List.mem_singleton.mp hq
      cases hrow.symm.trans hold
      rw [if_pos rfl, hrowid]

end Mid

/-- Safe requests succeed in whatever order they are processed, and write what they ask for. -/
theorem run_patches (h : Safe st user shown patches) {requests : List (RowOrder × Patch)}
    (hrequests : (requests.map Prod.snd).Perm patches) :
    ∃ st', Runs.run (WikiState.patchStep (some user)) st requests = some st' ∧ Mid st st' patches := by
  have hrest : ∀ (rest : List (RowOrder × Patch)) (done : List Patch) (mid : WikiState), Mid st mid done →
      (done ++ rest.map Prod.snd).Perm patches →
      ∃ st', Runs.run (WikiState.patchStep (some user)) mid rest = some st' ∧ Mid st st' (done ++ rest.map Prod.snd) := by
    intro rest
    induction rest with
    | nil =>
      intro done mid hm _
      exact ⟨mid, rfl, by simpa using hm⟩
    | cons request rest ih =>
      intro done mid hm hperm
      obtain ⟨order, p⟩ := request
      have hp : p ∈ patches := hperm.subset (by simp)
      have hdone : ∀ q ∈ done, q ∈ patches := fun q hq => hperm.subset (List.mem_append_left _ hq)
      have hwaits : p.id ∉ done.map Patch.id := by
        have hnodup := (hperm.map Patch.id).nodup_iff.mpr h.nodup
        rw [List.map_append, List.nodup_append] at hnodup
        intro hmem
        exact hnodup.2.2 p.id hmem p.id (by simp) rfl
      obtain ⟨next, hstep, hnext⟩ := hm.step h hdone order hp hwaits
      have hmore : done ++ [p] ++ rest.map Prod.snd = done ++ ((order, p) :: rest).map Prod.snd := by simp
      obtain ⟨st', hrun, hend⟩ := ih (done ++ [p]) next hnext (by rw [hmore]; exact hperm)
      exact ⟨st', Runs.run_cons.mpr ⟨next, hstep, hrun⟩, by rwa [hmore] at hend⟩
  have hstart : Mid st st [] := ⟨rfl, fun _ _ => rfl, fun _ hp => absurd hp List.not_mem_nil⟩
  obtain ⟨st', hrun, hm⟩ := hrest requests [] st hstart hrequests
  refine ⟨st', hrun, hm.db, fun x hx => hm.waiting x fun hmem => hx ((hrequests.map Patch.id).subset hmem),
    fun p hp => ?_⟩
  exact hm.written p (hrequests.symm.subset hp)

end AdWiki.Wiki
