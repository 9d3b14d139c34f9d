import AdWiki.Lib.Runs
import AdWiki.Wiki.PagesService

/-!
# What the calls on pages write

For each call on pages that succeeds, what it has checked and what a lookup finds afterwards (`Created`, `Updated`,
`Removed`, `Restored`, `Purged`). Whoever proves something about the pages after a call uses these and does not open
the call.
-/

namespace AdWiki.Wiki

open Access Fallible

variable {kb : KnowledgeBase} {st st' : WikiState} {order : RowOrder} {slugify : String → String} {id : String}
  {spaceId : String} {input : UpdatePageInput} {existing : Option Page} {actor : Option AuthenticatedUser}

/-- The parent of the page is a folder that is not in the trash, in the space and the category of the page. -/
def InFolder (kb : KnowledgeBase) (page : Page) (parentId : String) : Prop :=
  ∃ folder, kb.pages.find parentId = some folder ∧ folder.type = .folder ∧ folder.deletedAt = none ∧
    folder.spaceId = page.spaceId ∧ folder.categoryId = page.categoryId

theorem findLive_eq_some {page : Page} :
    kb.findLive id = some page ↔ kb.pages.find id = some page ∧ page.deletedAt = none := by
  rw [KnowledgeBase.findLive, Option.filter_eq_some_iff, Option.isNone_iff_eq_none]

theorem findTrashed_eq_some {page : Page} :
    kb.findTrashed id = some page ↔ kb.pages.find id = some page ∧ page.deletedAt.isSome := by
  rw [KnowledgeBase.findTrashed, Option.filter_eq_some_iff]

/-- The new parent is a folder in the resolved space and in the new category, and not the page itself. -/
theorem resolvePageSpace_folder {assignment : Assignment} (h : kb.resolvePageSpace assignment existing = .ok spaceId) :
    ∀ y, assignment.newParentId existing = some y → existing.map Page.id ≠ some y ∧
      ∃ folder, kb.pages.find y = some folder ∧ folder.type = .folder ∧ folder.deletedAt = none ∧
        folder.spaceId = spaceId ∧ folder.categoryId = assignment.newCategoryId existing := by
  intro y hy
  unfold KnowledgeBase.resolvePageSpace at h
  obtain ⟨hself, h⟩ := throwIf_bind_eq_ok.mp h
  obtain ⟨_, -, h⟩ := bind_eq_ok.mp h
  obtain ⟨hfolder, h⟩ := throwIf_bind_eq_ok.mp h
  obtain ⟨resolved, -, h⟩ := bind_eq_ok.mp h
  obtain ⟨hmatch, h⟩ := throwIf_bind_eq_ok.mp h
  obtain rfl := pure_eq_ok.mp h
  rw [hy] at hself hfolder hmatch
  refine ⟨fun heq => hself ⟨rfl, heq.symm⟩, ?_⟩
  cases hparent : kb.findLive y with
  | none => simp [hparent] at hfolder
  | some folder =>
    obtain ⟨hfind, hlive⟩ := findLive_eq_some.mp hparent
    refine ⟨folder, hfind, by simpa [hparent] using hfolder, hlive, ?_, ?_⟩
    · by_contra hne
      exact hmatch (Or.inr (Or.inl (by simp [hparent, hne])))
    · by_contra hne
      exact hmatch (Or.inr (Or.inr (by simp [hparent, hne])))

/-- A lookup after the row `page` has been written. -/
theorem find_written {pages : Table Page.id} {page : Page} (f : Page → Page) (hf : ∀ r, (f r).id = r.id)
    (hpage : pages.find page.id = some page) (x : String) :
    (pages.updateMany (fun row => row.id == page.id) f hf).find x = if x = page.id then some (f page)
      else pages.find x := by
  rw [Table.find_updateMany]
  by_cases hx : x = page.id
  · rw [if_pos hx, hx, hpage, Option.map_some, if_pos (beq_self_eq_true page.id)]
  · rw [if_neg hx]
    cases hrow : pages.find x with
    | none => rfl
    | some row =>
      have hid : row.id = x := (Table.find_eq_some.mp hrow).2
      rw [Option.map_some, if_neg (by simpa [hid] using hx)]

/-! ## The calls -/

/-- `page` has been inserted, in a folder or without a parent. -/
structure Created (kb kb' : KnowledgeBase) (page : Page) : Prop where
  fresh : kb.pages.find page.id = none
  rows : ∀ row, row ∈ kb'.pages ↔ row ∈ kb.pages ∨ row = page
  find : ∀ x, kb'.pages.find x = if x = page.id then some page else kb.pages.find x
  folder : ∀ y, page.parentId = some y → InFolder kb page y
  rest : kb' = { kb with pages := kb'.pages }

theorem create_created {input : CreatePageInput} {authorId : String}
    (h : st.create order slugify id input authorId actor = .ok st') :
    ∃ spaceId, Created st.kb st'.kb (st.newPage slugify id input spaceId authorId) := by
  unfold WikiState.create at h
  obtain ⟨spaceId, hspace, h⟩ := bind_eq_ok.mp h
  obtain ⟨_, -, h⟩ := bind_eq_ok.mp h
  obtain ⟨-, h⟩ := throwIf_bind_eq_ok.mp h
  split at h
  · cases h
  · next pages hcreate =>
    cases pure_eq_ok.mp h
    have hfresh : st.kb.pages.find id = none := by
      refine Table.find_eq_none.mpr fun row hrow => ?_
      exact Table.key_ne_of_createMany hcreate hrow (List.mem_singleton.mpr rfl)
    refine ⟨spaceId, hfresh, fun row => ?_, fun x => ?_, fun y hy => ?_, rfl⟩
    · show row ∈ pages ↔ _
      rw [Table.mem_createMany hcreate, List.mem_singleton]
    · show pages.find x = _
      rw [Table.find_createMany hcreate, List.find?_singleton]
      by_cases hx : x = (st.newPage slugify id input spaceId authorId).id
      · rw [if_pos hx, if_pos (decide_eq_true hx.symm), hx]
        exact congrArg (Option.or · _) hfresh
      · rw [if_neg hx, if_neg (by simpa using fun heq => hx heq.symm), Option.or_none]
    · obtain ⟨-, folder, hfind, htype, hlive, hsame, hcategory⟩ := resolvePageSpace_folder hspace y hy
      exact ⟨folder, hfind, htype, hlive, hsame, hcategory⟩

/-- The row `page` has become `page.write input spaceId page`. -/
structure Updated (kb kb' : KnowledgeBase) (input : UpdatePageInput) (page : Page) (spaceId : String) : Prop where
  found : kb.pages.find page.id = some page
  live : page.deletedAt = none
  find : ∀ x, kb'.pages.find x = if x = page.id then some (page.write input spaceId page) else kb.pages.find x
  folder : input.assignmentChanged = true → ∀ y, (page.write input spaceId page).parentId = some y →
    y ≠ page.id ∧ InFolder kb (page.write input spaceId page) y
  resolved : input.assignmentChanged = true → kb.resolvePageSpace input.assignment (some page) = .ok spaceId
  stays : input.assignmentChanged = false → spaceId = page.spaceId ∧ input.categoryId = none ∧ input.parentId = none
  moves : spaceId ≠ page.spaceId → ∀ row ∈ kb.pages, row.parentId = some page.id → row.deletedAt.isSome
  rest : kb' = { kb with pages := kb'.pages }

theorem update_updated {options : PageUpdateOptions} (h : st.update order id input options = .ok st') :
    ∃ page spaceId, page.id = id ∧ Updated st.kb st'.kb input page spaceId := by
  unfold WikiState.update at h
  split at h
  · cases h
  · next page hfound =>
    obtain ⟨hfind, hlive⟩ := findLive_eq_some.mp hfound
    obtain ⟨hmem, rfl⟩ := Table.find_eq_some.mp hfind
    obtain ⟨_, -, h⟩ := bind_eq_ok.mp h
    obtain ⟨-, h⟩ := throwIf_bind_eq_ok.mp h
    obtain ⟨spaceId, hspace, h⟩ := bind_eq_ok.mp h
    obtain ⟨hchildren, h⟩ := throwIf_bind_eq_ok.mp h
    obtain ⟨-, h⟩ := throwIf_bind_eq_ok.mp h
    cases pure_eq_ok.mp h
    have hresolved :
        input.assignmentChanged = true → st.kb.resolvePageSpace input.assignment (some page) = .ok spaceId := by
      intro hchanged
      unfold WikiState.updatedSpace at hspace
      rw [if_pos hchanged] at hspace
      obtain ⟨resolved, hresolved, hspace⟩ := bind_eq_ok.mp hspace
      obtain ⟨_, -, hspace⟩ := bind_eq_ok.mp hspace
      rw [← pure_eq_ok.mp hspace, hresolved]
    refine ⟨page, spaceId, rfl, hfind, hlive, find_written _ (fun _ => Page.write_id) hfind, fun hchanged y hy => ?_,
      hresolved, fun hsame => ?_, fun hne row hrow hparent => ?_, rfl⟩
    · obtain ⟨hself, folder, hfolder, htype, hlive, hsame, hcategory⟩ := resolvePageSpace_folder (hresolved hchanged) y hy
      exact ⟨fun heq => hself (by rw [heq]; rfl), folder, hfolder, htype, hlive, hsame, hcategory⟩
    · unfold WikiState.updatedSpace at hspace
      rw [if_neg (by simp [hsame])] at hspace
      cases hspace
      simp only [UpdatePageInput.assignmentChanged, Bool.or_eq_false_iff, Option.isSome_eq_false_iff,
        Option.isNone_iff_eq_none] at hsame
      exact ⟨rfl, hsame.1.2, hsame.2⟩
    · by_contra htrashed
      refine hchildren ⟨hne, List.countP_pos_iff.mpr ⟨row, hrow, ?_⟩⟩
      simp only [hparent, beq_self_eq_true, Bool.true_and]
      cases hdeleted : row.deletedAt with
      | none => rfl
      | some t => simp [hdeleted] at htrashed

/-- What becomes of a row when `page` goes into the trash: the rows in a folder lose their parent. -/
def trashed (page : Page) (now : Time) (deletedById : String) (row : Page) : Page :=
  let moved :=
    if page.type = .folder ∧ row.parentId = some page.id ∧ row.deletedAt = none then { row with parentId := none }
    else row
  if row.id = page.id then { moved with deletedAt := some now, deletedById := some deletedById } else moved

structure Removed (kb kb' : KnowledgeBase) (page : Page) (now : Time) (deletedById : String) : Prop where
  found : kb.pages.find page.id = some page
  live : page.deletedAt = none
  find : ∀ x, kb'.pages.find x = (kb.pages.find x).map (trashed page now deletedById)
  rest : kb' = { kb with pages := kb'.pages }

theorem remove_removed {deletedById : String} {now : Time} (h : st.remove order id deletedById now actor = .ok st') :
    ∃ page, page.id = id ∧ Removed st.kb st'.kb page now deletedById := by
  unfold WikiState.remove at h
  split at h
  · cases h
  · next page hfound =>
    obtain ⟨hfind, hlive⟩ := findLive_eq_some.mp hfound
    obtain ⟨hmem, rfl⟩ := Table.find_eq_some.mp hfind
    obtain ⟨_, -, h⟩ := bind_eq_ok.mp h
    obtain ⟨_, -, h⟩ := bind_eq_ok.mp h
    obtain ⟨-, h⟩ := throwIf_bind_eq_ok.mp h
    cases pure_eq_ok.mp h
    refine ⟨page, rfl, hfind, hlive, fun x => ?_, rfl⟩
    have hmap : ∀ (pages : Table Page.id) (f : Page → Page) (hf : ∀ r, (f r).id = r.id),
        (pages.updateMany (fun row => row.id == page.id) f hf).find x =
          (pages.find x).map fun row => if row.id == page.id then f row else row := fun _ _ _ => Table.find_updateMany
    refine (hmap _ (fun row => { row with deletedAt := some now, deletedById := some deletedById }) fun _ => rfl).trans ?_
    by_cases hfolder : page.type = .folder
    · rw [if_pos hfolder, Table.find_updateMany, Option.map_map]
      refine Option.map_congr fun row _ => ?_
      simp only [Function.comp, trashed, hfolder, true_and, Bool.and_eq_true, beq_iff_eq, Option.isNone_iff_eq_none]
      by_cases hchild : row.parentId = some page.id ∧ row.deletedAt = none
      · simp [hchild]
      · simp [hchild]
    · rw [if_neg hfolder]
      refine Option.map_congr fun row _ => ?_
      simp [trashed, hfolder]

structure Restored (kb kb' : KnowledgeBase) (page : Page) : Prop where
  found : kb.pages.find page.id = some page
  trashed : page.deletedAt.isSome
  find : ∀ x, kb'.pages.find x =
    if x = page.id then some { page with deletedAt := none, deletedById := none } else kb.pages.find x
  rest : kb' = { kb with pages := kb'.pages }

theorem restore_restored (h : st.restore order id actor = .ok st') :
    ∃ page, page.id = id ∧ Restored st.kb st'.kb page := by
  unfold WikiState.restore at h
  split at h
  · cases h
  · next page hfound =>
    obtain ⟨hfind, htrashed⟩ := findTrashed_eq_some.mp hfound
    obtain ⟨hmem, rfl⟩ := Table.find_eq_some.mp hfind
    obtain ⟨_, -, h⟩ := bind_eq_ok.mp h
    cases pure_eq_ok.mp h
    exact ⟨page, rfl, hfind, htrashed,
      find_written (fun row => { row with deletedAt := none, deletedById := none }) (fun _ => rfl) hfind, rfl⟩

/-- `page` is gone, and the rows under it have no parent. -/
structure Purged (kb kb' : KnowledgeBase) (page : Page) : Prop where
  found : kb.pages.find page.id = some page
  trashed : page.deletedAt.isSome
  find : ∀ x, kb'.pages.find x = if x = page.id then none
    else (kb.pages.find x).map fun row => if row.parentId = some page.id then { row with parentId := none } else row
  rest : kb' = { kb with pages := kb'.pages }

theorem permanentRemove_purged (h : st.permanentRemove order id actor = .ok st') :
    ∃ page, page.id = id ∧ Purged st.kb st'.kb page := by
  unfold WikiState.permanentRemove at h
  split at h
  · cases h
  · next page hfound =>
    obtain ⟨hfind, htrashed⟩ := findTrashed_eq_some.mp hfound
    obtain ⟨hmem, rfl⟩ := Table.find_eq_some.mp hfind
    obtain ⟨_, -, h⟩ := bind_eq_ok.mp h
    cases pure_eq_ok.mp h
    refine ⟨page, rfl, hfind, htrashed, fun x => ?_, rfl⟩
    show (WikiState.withoutPage st.kb.pages page.id).find x = _
    rw [WikiState.withoutPage, Table.find_updateMany, Table.find_deleteMany]
    by_cases hx : x = page.id
    · rw [if_pos hx, hx, hfind]
      simp
    · rw [if_neg hx]
      cases hrow : st.kb.pages.find x with
      | none => rfl
      | some row =>
        have hid : row.id = x := (Table.find_eq_some.mp hrow).2
        rw [Option.filter_some, if_pos (by simpa [hid] using hx)]
        simp

end AdWiki.Wiki
