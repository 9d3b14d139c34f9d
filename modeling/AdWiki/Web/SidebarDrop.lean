import AdWiki.Web.SidebarMirror

/-!
# A drop in the sidebar

A drop is shown at once and turned into several requests, which the server processes in any order.

* `Dropped`: what dragging and dropping keep, and what they change.
* `drop_agrees_iff`: the drops after which the tree in the sidebar is still that of the server, in whatever order the
  server processes the requests: those that take no folder with pages to another category, and put pages only where the
  user may update pages.
* `folder_leaves_pages`: a folder with a page that is dropped onto another category arrives there without the page.
-/

namespace AdWiki.Web

open Access Wiki Containers

variable {items items' finalItems : Items} {state shown : BuiltState} {st st' : WikiState} {user : AuthenticatedUser}
  {arrayMove : List String → Int → Int → List String} {c d : Container} {a x f : String} {i : Nat}

/-! ## Layouts -/

variable {itemMeta : OrderedMap String ItemType}

theorem valid_catFolders {type : Option ItemType} {catId : String} :
    isValidTarget type (.catFolders catId) = true ↔ type = some .folder := by
  rcases type with _ | _ | _ <;> simp [isValidTarget]

namespace Arranged

variable (h : Arranged items itemMeta)

include h

theorem folder_iff : (∃ c, Holds items (.catFolders c) f) ↔ itemMeta.get? f = some .folder ∧ ∃ d, Holds items d f := by
  constructor
  · rintro ⟨c, hc⟩
    exact ⟨valid_catFolders.mp (h.target _ f hc), _, hc⟩
  · rintro ⟨htype, d, hd⟩
    have hvalid := h.target d f hd
    rw [htype] at hvalid
    cases d with
    | catFolders c => exact ⟨c, hd⟩
    | catPages c => cases hvalid
    | folderBox c => cases hvalid

/-- Another layout of the same items in the same containers. -/
theorem rearranged (hr : Rearranged a items items') (hapart : Apart items')
    (htarget : ∀ c, Holds items' c a → isValidTarget (itemMeta.get? a) c = true) : Arranged items' itemMeta := by
  have hall : ∀ c x, Holds items' c x → isValidTarget (itemMeta.get? x) c = true := by
    intro c x hx
    by_cases hxa : x = a
    · rw [hxa] at hx ⊢
      exact htarget c hx
    · exact h.target c x ((hr.others x c hxa).mp hx)
  refine ⟨hapart, hall, fun f => ?_⟩
  have hfolders : (∃ c, Holds items' (.catFolders c) f) ↔ ∃ c, Holds items (.catFolders c) f := by
    rw [h.folder_iff, ← hr.held]
    constructor
    · rintro ⟨c, hc⟩
      exact ⟨valid_catFolders.mp (hall _ f hc), _, hc⟩
    · rintro ⟨htype, d, hd⟩
      have hvalid := hall d f hd
      rw [htype] at hvalid
      cases d with
      | catFolders c => exact ⟨c, hd⟩
      | catPages c => cases hvalid
      | folderBox c => cases hvalid
  rw [hr.containers, h.box f, hfolders]

end Arranged

/-! ## Dragging and dropping -/

theorem isSome_of_findContainer {target : Over} (h : findContainer items target = some c) : (items.get? c).isSome := by
  cases target with
  | container d =>
    rw [findContainer] at h
    split at h
    · next hsome =>
      cases h
      exact hsome
    · cases h
  | item id => exact (holds_of_containerOf h).isSome

/-- Only the dragged item moves, and to containers that are for its type. -/
structure Dropped (a : String) (items items' : Items) (itemMeta : OrderedMap String ItemType) : Prop where
  arranged : Arranged items' itemMeta
  rearranged : Rearranged a items items'

theorem handleDragOver_dropped (target : Option Over) (isBelow : Bool) (h : Arranged state.items state.itemMeta) :
    Dropped a state.items (handleDragOver state a target isBelow).items state.itemMeta ∧
      (handleDragOver state a target isBelow).itemMeta = state.itemMeta ∧
      (handleDragOver state a target isBelow).server = state.server := by
  unfold handleDragOver
  cases target with
  | none => exact ⟨⟨h, Rearranged.refl⟩, rfl, rfl⟩
  | some target =>
    dsimp only
    split
    · next activeContainer overContainer hactive hover =>
      split
      · next hmove =>
        obtain ⟨hvalid, hne⟩ := hmove
        have ha : Holds state.items activeContainer a := holds_of_containerOf hactive
        have hover' := isSome_of_findContainer hover
        have hr :=
          move_rearranged (i := dropIndex ((state.items.get? overContainer).getD []) isBelow target) h.apart ha hne hover'
        refine ⟨⟨h.rearranged hr (move_apart h.apart ha hne hover') fun c hc => ?_, hr⟩, rfl, rfl⟩
        rw [holds_move h.apart ha hne hover', if_pos rfl] at hc
        rw [hc]
        exact hvalid
      · exact ⟨⟨h, Rearranged.refl⟩, rfl, rfl⟩
    · exact ⟨⟨h, Rearranged.refl⟩, rfl, rfl⟩

theorem drag_dropped (overs : List (Option Over × Bool)) (h : Arranged state.items state.itemMeta) :
    Dropped a state.items (drag state a overs).items state.itemMeta ∧ (drag state a overs).itemMeta = state.itemMeta ∧
      (drag state a overs).server = state.server := by
  induction overs generalizing state with
  | nil => exact ⟨⟨h, Rearranged.refl⟩, rfl, rfl⟩
  | cons target overs ih =>
    obtain ⟨hfirst, hmeta, hserver⟩ := handleDragOver_dropped (a := a) target.1 target.2 h
    have harranged :
        Arranged (handleDragOver state a target.1 target.2).items
          (handleDragOver state a target.1 target.2).itemMeta := by
      rw [hmeta]
      exact hfirst.arranged
    obtain ⟨hrest, hmeta', hserver'⟩ := ih harranged
    rw [hmeta] at hrest
    exact ⟨⟨hrest.arranged, hfirst.rearranged.trans hrest.rearranged⟩, hmeta'.trans hmeta, hserver'.trans hserver⟩

theorem indexOf_mem {list : List String} (h : x ∈ list) : 0 ≤ indexOf list x ∧ indexOf list x < list.length := by
  obtain ⟨i, hi⟩ := Option.isSome_iff_exists.mp (List.isSome_idxOf?.mpr h)
  obtain ⟨hlt, -⟩ := List.idxOf?_eq_some_iff.mp hi
  unfold indexOf
  rw [hi]
  simp only [Option.elim_some, Int.ofNat_eq_natCast]
  omega

/-- `arrayMove` puts an element of a list at another index of it. -/
def Permutes (arrayMove : List String → Int → Int → List String) : Prop :=
  ∀ list oldIndex newIndex, 0 ≤ oldIndex → oldIndex < list.length → 0 ≤ newIndex → newIndex < list.length →
    (arrayMove list oldIndex newIndex).Perm list

theorem handleDragEnd_dropped {target : Option Over} (h : Arranged state.items state.itemMeta)
    (hmove : Permutes arrayMove)
    (hend : handleDragEnd arrayMove state a target = some finalItems) :
    Dropped a state.items finalItems state.itemMeta := by
  unfold handleDragEnd at hend
  cases target with
  | none => cases hend
  | some target =>
    dsimp only at hend
    split at hend
    · next overContainer activeContainer hover hactive =>
      split at hend
      · cases hend
      · next hvalid =>
        split at hend
        · next hsame =>
          subst hsame
          obtain ⟨list, hlist, ha⟩ := holds_of_containerOf hactive
          rw [hlist, Option.getD_some] at hend
          obtain ⟨hold, hold'⟩ := indexOf_mem ha
          have hnew : endIndex list target < list.length := by
            cases target with
            | container d =>
              rw [endIndex]
              omega
            | item overId =>
              obtain ⟨list', hlist', hmem⟩ := holds_of_containerOf hover
              cases hlist.symm.trans hlist'
              exact (indexOf_mem hmem).2
          split at hend
          · next hindex =>
            cases hend
            have hperm := hmove list _ _ hold hold' hindex.2 hnew
            have hr := reorder_rearranged (a := a) hlist hperm
            refine ⟨h.rearranged hr (reorder_apart hlist hperm h.apart) fun c hc => ?_, hr⟩
            exact h.target c a ((holds_reorder hlist hperm).mp hc)
          · cases hend
            exact ⟨h, Rearranged.refl⟩
        · cases hend
          exact ⟨h, Rearranged.refl⟩
    · cases hend

/-! ## Places -/

/-- The item is at a place of the layout. -/
def At (items : Items) (c : Container) (i : Nat) (x : String) : Prop :=
  ∃ list, items.get? c = some list ∧ list[i]? = some x

theorem At.holds (h : At items c i x) : Holds items c x := by
  obtain ⟨list, hlist, hx⟩ := h
  exact ⟨list, hlist, List.mem_of_getElem? hx⟩

theorem at_of_holds (h : Holds items c x) : ∃ i, At items c i x := by
  obtain ⟨list, hlist, hx⟩ := h
  obtain ⟨i, hi⟩ := List.mem_iff_getElem?.mp hx
  exact ⟨i, list, hlist, hi⟩

/-- A folder that is not dragged keeps its category. -/
theorem categoryOfFolder_other (h : Apart items) (h' : Apart items') (hr : Rearranged a items items') (hf : f ≠ a) :
    categoryOfFolder items' f = categoryOfFolder items f := by
  have hsame : containerOf items' f = containerOf items f := by
    refine Option.ext fun c => ?_
    rw [containerOf_eq_some h, containerOf_eq_some h', hr.others f c hf]
  unfold categoryOfFolder
  rw [findContainer_item, findContainer_item, hsame]

/-- A container whose pages get a category is one of a category that is shown. -/
theorem shown_of_attrs {catId : String} (hc : (items.get? c).isSome) (h : (containerAttrs items c).2 = some catId) :
    catId ≠ uncategorizedId ∧ ((items.get? (.catFolders catId)).isSome ∨ (items.get? (.catPages catId)).isSome) := by
  have hreal : ∀ {id}, realCategory id = some catId → id = catId ∧ catId ≠ uncategorizedId := by
    intro id hid
    unfold realCategory at hid
    split at hid
    · cases hid
    · next hne =>
      cases hid
      exact ⟨rfl, hne⟩
  cases c with
  | catFolders id =>
    obtain ⟨rfl, hne⟩ := hreal h
    exact ⟨hne, Or.inl hc⟩
  | catPages id =>
    obtain ⟨rfl, hne⟩ := hreal h
    exact ⟨hne, Or.inr hc⟩
  | folderBox folderId =>
    have hfolder : categoryOfFolder items folderId = some catId := h
    unfold categoryOfFolder at hfolder
    split at hfolder
    · next id hfound =>
      obtain ⟨rfl, hne⟩ := hreal hfolder
      exact ⟨hne, Or.inl (isSome_of_findContainer hfound)⟩
    · cases hfolder

theorem attrs_parent {y : String} (h : (containerAttrs items c).1 = some y) : c = .folderBox y := by
  cases c with
  | catFolders id => cases h
  | catPages id => cases h
  | folderBox id => rw [Option.some.inj h]

/-! ## Requests -/

variable {server : OrderedMap String ServerFields} {p : Patch}

/-- The item is at a place at which the server does not have it. -/
def Changed (server : OrderedMap String ServerFields) (items : Items) (c : Container) (i : Nat) (x : String) : Prop :=
  At items c i x ∧ server.get? x ≠ some (desired items c i)

theorem mem_persist : p ∈ persist server items ↔ ∃ c i, Changed server items c i p.id ∧ p.data = desired items c i := by
  unfold persist
  rw [List.mem_flatMap]
  constructor
  · rintro ⟨⟨c, list⟩, hlist, hp⟩
    obtain ⟨⟨x, i⟩, hx, hp⟩ := List.mem_filterMap.mp hp
    have hat := List.mem_zipIdx_iff_getElem?.mp hx
    dsimp only at hp hat
    split at hp
    · cases hp
    · next hchanged =>
      cases hp
      exact ⟨c, i, ⟨⟨list, OrderedMap.get?_eq_some.mpr hlist, hat⟩, hchanged⟩, rfl⟩
  · rintro ⟨c, i, ⟨⟨list, hlist, hat⟩, hchanged⟩, hdata⟩
    refine ⟨(c, list), OrderedMap.get?_eq_some.mp hlist, List.mem_filterMap.mpr ⟨(p.id, i),
      List.mem_zipIdx_iff_getElem?.mpr hat, ?_⟩⟩
    dsimp only
    rw [if_neg hchanged, ← hdata]

/-- An item is at one place. -/
theorem at_unique {j : Nat} (h : Apart items) (hi : At items c i x) (hj : At items d j x) : c = d ∧ i = j := by
  obtain rfl := h.unique c d x hi.holds hj.holds
  obtain ⟨list, hlist, hx⟩ := hi
  obtain ⟨list', hlist', hx'⟩ := hj
  cases hlist.symm.trans hlist'
  obtain ⟨hlt, -⟩ := List.getElem?_eq_some_iff.mp hx
  exact ⟨rfl, (List.getElem?_inj hlt (h.nodup c list hlist)).mp (hx.trans hx'.symm)⟩

theorem persist_unique {q : Patch} (h : Apart items) (hp : p ∈ persist server items) (hq : q ∈ persist server items)
    (hid : p.id = q.id) : p = q := by
  obtain ⟨c, i, ⟨hat, -⟩, hdata⟩ := mem_persist.mp hp
  obtain ⟨d, j, ⟨hat', -⟩, hdata'⟩ := mem_persist.mp hq
  rw [← hid] at hat'
  obtain ⟨rfl, rfl⟩ := at_unique h hat hat'
  cases p
  cases q
  simp only at hid hdata hdata'
  rw [hid, hdata, hdata']

/-- There is one request for an item. -/
theorem nodup_persist (h : Apart items) : ((persist server items).map Patch.id).Nodup := by
  refine List.Nodup.map_on (fun p hp q hq => persist_unique h hp hq) ?_
  refine List.nodup_flatMap.mpr ⟨fun e _ => ?_, ?_⟩
  · obtain ⟨c, list⟩ := e
    have hindices : (list.zipIdx).Nodup := by
      have hmap : (list.zipIdx.map Prod.snd).Nodup := by
        rw [List.zipIdx_map_snd]
        exact List.nodup_range'
      exact hmap.of_map
    refine hindices.filterMap fun ⟨x, i⟩ ⟨y, j⟩ p hp hq => ?_
    simp only [Option.mem_def, Option.ite_none_left_eq_some, Option.some.injEq] at hp hq
    obtain ⟨-, rfl⟩ := hp
    obtain ⟨-, hq⟩ := hq
    simp only [Patch.mk.injEq, desired, ServerFields.mk.injEq] at hq
    rw [hq.1, Int.ofNat_inj.mp hq.2.1]
  · have hkeys : items.entries.Pairwise fun e e' => e.1 ≠ e'.1 := List.pairwise_map.mp items.nodup
    refine hkeys.imp_of_mem fun {e e'} he he' hne p hp hp' => ?_
    obtain ⟨⟨x, i⟩, hx, hp⟩ := List.mem_filterMap.mp hp
    obtain ⟨⟨y, j⟩, hy, hp'⟩ := List.mem_filterMap.mp hp'
    simp only [Option.ite_none_left_eq_some, Option.some.injEq] at hp hp'
    obtain ⟨-, rfl⟩ := hp
    obtain ⟨-, hp'⟩ := hp'
    obtain ⟨rfl, -⟩ := Patch.mk.inj hp'
    have hin : At items e.1 i y := ⟨e.2, OrderedMap.get?_eq_some.mpr he, List.mem_zipIdx_iff_getElem?.mp hx⟩
    have hin' : At items e'.1 j y := ⟨e'.2, OrderedMap.get?_eq_some.mpr he', List.mem_zipIdx_iff_getElem?.mp hy⟩
    exact hne (at_unique h hin hin').1

/-! ## The server -/

/-- A folder that has pages gets another category. -/
def MovesFullFolder (items items' : Items) : Prop :=
  ∃ folderId x, Holds items (.folderBox folderId) x ∧ categoryOfFolder items' folderId ≠ categoryOfFolder items folderId

/-- The new place of an item, as its request names it. -/
def placeIn (items : Items) (c : Container) : Assignment :=
  ⟨none, some (containerAttrs items c).2, some (containerAttrs items c).1⟩

/-- Every item that gets another place or another order comes into a space that takes pages and, outside of folders, into
a category or a space in which the user may update pages. -/
def MayLand (st : WikiState) (user : AuthenticatedUser) (server : OrderedMap String ServerFields)
    (items : Items) : Prop :=
  ∀ c i x row, Changed server items c i x → st.kb.findLive x = some row →
    Enabled st.kb (st.kb.requestedSpace (placeIn items c) row) .wiki ∧
    ((containerAttrs items c).1 = none → ∀ order, st.assertPageDestination order (some user) (placeIn items c)
      (st.kb.requestedSpace (placeIn items c) row) .update (some row) = .ok ())

/-- What the server makes of the requests of a drop is what the sidebar shows then: the new layout if they all succeed,
and the one before the drag if one of them fails. -/
structure Agrees (user : AuthenticatedUser) (shown : BuiltState) (finalItems : Items) (st : WikiState)
    (requests : List (RowOrder × Patch)) : Prop where
  succeeds : (Runs.run (WikiState.patchStep (some user)) st requests).isSome
  mirrors : Mirrors (shown.saved finalItems) (st.serveAll (some user) requests)
  placed : ∀ c i x, At finalItems c i x → ∃ row, (st.serveAll (some user) requests).kb.findLive x = some row ∧
    serverFields row = desired finalItems c i
  rollsBack : Runs.run (WikiState.patchStep (some user)) st requests = none →
    Mirrors shown (st.serveAll (some user) requests)

namespace Mirrors

variable (h : Mirrors shown st) (hd : Dropped a shown.items finalItems shown.itemMeta)

include h

theorem row (hx : Holds shown.items c x) {row : Page} (hrow : st.kb.findLive x = some row) :
    OnServer shown st c x row := by
  obtain ⟨row', hon⟩ := h.item c x hx
  cases hrow.symm.trans hon.found
  exact hon

/-- What is under an item is in its box. -/
theorem under {y : String} {row : Page} (hx : Holds shown.items c x) (hrow : st.kb.findLive x = some row)
    (hy : row.parentId = some y) : c = .folderBox y ∧ ∃ catId, Holds shown.items (.catFolders catId) y := by
  have hplace := (h.row hx hrow).place
  have hparent : (containerAttrs shown.items c).1 = some y := by rw [← hplace, ← hy]
  obtain rfl := attrs_parent hparent
  exact ⟨rfl, (h.arranged.box y).mp hx.isSome⟩

include hd

/-- Without a folder with pages that changes its category, a folder keeps the category in which it is while it has pages.
-/
theorem category_stays (hfull : ¬MovesFullFolder shown.items finalItems) {y : String}
    (hx : Holds finalItems (.folderBox y) x) :
    categoryOfFolder finalItems y = categoryOfFolder shown.items y := by
  by_contra hne
  have hya : y = a := by
    by_contra hya
    exact hne (categoryOfFolder_other h.arranged.apart hd.arranged.apart hd.rearranged hya)
  by_cases hxa : x = a
  · obtain ⟨catId, hfolder⟩ := (hd.arranged.box y).mp hx.isSome
    have hfolder' := valid_catFolders.mp (hd.arranged.target _ y hfolder)
    have hpage := hd.arranged.target _ x hx
    rw [hxa, ← hya, hfolder'] at hpage
    cases hpage
  · exact hfull ⟨y, x, (hd.rearranged.others x _ hxa).mp hx, hne⟩

/-- A folder that a request moves changes its category. -/
theorem moves_folder {y catId : String} (hy : Holds shown.items (.catFolders catId) y)
    (hmoves : Moves st (persist shown.server finalItems) y) :
    categoryOfFolder finalItems y ≠ categoryOfFolder shown.items y := by
  obtain ⟨p, hp, rfl, row, hrow, hne⟩ := hmoves
  obtain ⟨c, i, ⟨hat, -⟩, hdata⟩ := mem_persist.mp hp
  obtain ⟨catId', hy'⟩ := hd.arranged.folder_iff.mpr ⟨valid_catFolders.mp (h.arranged.target _ _ hy), c, hat.holds⟩
  obtain rfl := hd.arranged.apart.unique c _ p.id hat.holds hy'
  have hplace := (h.row hy hrow).place
  simp only [containerAttrs, Prod.mk.injEq] at hplace
  rw [categoryOfFolder_eq hd.arranged.apart hy', categoryOfFolder_eq h.arranged.apart hy]
  intro hsame
  refine hne ⟨?_, ?_⟩
  · rw [hdata, hplace.1]
    rfl
  · rw [hdata, hplace.2, ← hsame]
    rfl

/-- The requests of a drop do not get in each other's way. -/
theorem safe (hmay : ∀ c x, Holds shown.items c x → MayUpdate st user x)
    (hauthor : ∀ row ∈ st.kb.pages, (st.db.directory.users.find row.authorId).isSome)
    (hfull : ¬MovesFullFolder shown.items finalItems) (hland : MayLand st user shown.server finalItems) :
    Safe st user (fun x => ∃ c, Holds shown.items c x) (persist shown.server finalItems) := by
  have hheld : ∀ {p}, p ∈ persist shown.server finalItems → ∃ c, Holds shown.items c p.id := by
    intro p hp
    obtain ⟨c, i, ⟨hat, -⟩, -⟩ := mem_persist.mp hp
    exact hd.rearranged.held.mp ⟨c, hat.holds⟩
  refine
    { nodup := nodup_persist hd.arranged.apart
      page := fun x ⟨c, hx⟩ => ?_
      allowed := fun x ⟨c, hx⟩ => hmay c x hx
      above := fun x row y ⟨c, hx⟩ hrow hy => ?_
      patched := fun p hp => hheld hp
      folder := fun p hp y hy => ?_
      category := fun p hp catId hcategory => ?_
      leaf := fun x hmoves below hbelow hparent => ?_
      enabled := fun p hp row hrow => ?_
      root := fun p hp hparent order row hrow => ?_
      author := hauthor }
  · obtain ⟨row, hrow⟩ := h.item c x hx
    exact ⟨row, hrow.found⟩
  · obtain ⟨-, catId, hfolder⟩ := h.under hx hrow hy
    exact ⟨_, hfolder⟩
  · obtain ⟨c, i, ⟨hat, -⟩, hdata⟩ := mem_persist.mp hp
    have hparent : (containerAttrs finalItems c).1 = some y := by rw [← hy, hdata]; rfl
    obtain rfl := attrs_parent hparent
    obtain ⟨catId, hfolder⟩ := (hd.arranged.box y).mp hat.holds.isSome
    have htype := valid_catFolders.mp (hd.arranged.target _ y hfolder)
    obtain ⟨catId', hfolder'⟩ := h.arranged.folder_iff.mpr ⟨htype, hd.rearranged.held.mp ⟨_, hfolder⟩⟩
    have hstays := h.category_stays hd hfull hat.holds
    obtain ⟨row, hrow⟩ := h.item _ y hfolder'
    refine ⟨⟨_, hfolder'⟩, fun heq => ?_, fun hmoves => h.moves_folder hd hfolder' hmoves hstays, row, hrow.found, ?_, ?_⟩
    · have hpage := hd.arranged.target _ p.id hat.holds
      rw [← heq, htype] at hpage
      cases hpage
    · have hrowtype := hrow.type
      rw [htype] at hrowtype
      cases hkind : row.type with
      | folder => rfl
      | page =>
        rw [hkind] at hrowtype
        cases hrowtype
    · have hplace := hrow.place
      simp only [containerAttrs, Prod.mk.injEq] at hplace
      rw [hplace.2, ← categoryOfFolder_eq h.arranged.apart hfolder', ← hstays, hdata]
      rfl
  · obtain ⟨c, i, ⟨hat, -⟩, hdata⟩ := mem_persist.mp hp
    rw [hdata] at hcategory
    obtain ⟨hne, hkey⟩ := shown_of_attrs hat.holds.isSome hcategory
    rw [hd.rearranged.containers, hd.rearranged.containers] at hkey
    exact (h.category catId hkey).resolve_left hne
  · by_contra hlive
    have hrow : st.kb.findLive below.id = some below :=
      findLive_eq_some.mpr ⟨Table.find_of_mem hbelow, by simpa using hlive⟩
    obtain ⟨p, hp, hid, hmoved⟩ := hmoves
    obtain ⟨d, hxd⟩ := hheld hp
    rw [hid] at hxd
    obtain ⟨c, hc⟩ := h.complete below hbelow (by simpa using hlive) (Or.inr ⟨x, d, hparent, hxd⟩)
    obtain ⟨rfl, catId, hfolder⟩ := h.under hc hrow hparent
    exact hfull ⟨x, below.id, hc, h.moves_folder hd hfolder ⟨p, hp, hid, hmoved⟩⟩
  · obtain ⟨c, i, hchanged, hdata⟩ := mem_persist.mp hp
    have hplace : p.input.assignment = placeIn finalItems c := by
      unfold Patch.input
      rw [hdata]
      rfl
    rw [hplace]
    exact (hland c i p.id row hchanged hrow).1
  · obtain ⟨c, i, hchanged, hdata⟩ := mem_persist.mp hp
    have hplace : p.input.assignment = placeIn finalItems c := by
      unfold Patch.input
      rw [hdata]
      rfl
    have hroot : (containerAttrs finalItems c).1 = none := by rw [← hparent, hdata]; rfl
    rw [hplace]
    exact (hland c i p.id row hchanged hrow).2 hroot order

end Mirrors

/-- What the sidebar believes after the requests: the fields that it has asked for. -/
theorem saved_server (h : Apart finalItems) (hat : At finalItems c i x) :
    (shown.saved finalItems).server.get? x = some (desired finalItems c i) := by
  have hkeys : (((persist shown.server finalItems).map fun p => (p.id, p.data)).map Prod.fst).Nodup := by
    rw [List.map_map]
    exact nodup_persist h
  unfold BuiltState.saved
  rw [OrderedMap.get?_setAll]
  by_cases hsame : shown.server.get? x = some (desired finalItems c i)
  · have hnone : ((persist shown.server finalItems).map fun p => (p.id, p.data)).reverse.lookup x = none := by
      cases hlookup : ((persist shown.server finalItems).map fun p => (p.id, p.data)).reverse.lookup x with
      | none => rfl
      | some data =>
        obtain ⟨p, hp, heq⟩ := List.mem_map.mp ((OrderedMap.lookup_reverse hkeys).mp hlookup)
        cases heq
        obtain ⟨d, j, ⟨hat', hchanged⟩, -⟩ := mem_persist.mp hp
        obtain ⟨rfl, rfl⟩ := at_unique h hat hat'
        exact absurd hsame hchanged
    rw [hnone, Option.none_or, hsame]
  · have hmem : (x, desired finalItems c i) ∈ (persist shown.server finalItems).map fun p => (p.id, p.data) :=
      List.mem_map.mpr ⟨⟨x, desired finalItems c i⟩, mem_persist.mpr ⟨c, i, ⟨hat, hsame⟩, rfl⟩, rfl⟩
    rw [(OrderedMap.lookup_reverse hkeys).mpr hmem, Option.some_or]

namespace Mirrors

variable (h : Mirrors shown st) (hd : Dropped a shown.items finalItems shown.itemMeta)
  (hm : Mid st st' (persist shown.server finalItems))

include h hd hm

/-- After the requests the server has every item where it is shown. -/
theorem landed (hat : At finalItems c i x) :
    ∃ row', st'.kb.findLive x = some row' ∧ serverFields row' = desired finalItems c i ∧
    shown.itemMeta.get? x = some (itemType row'.type) := by
  obtain ⟨d, hx⟩ := hd.rearranged.held.mp ⟨c, hat.holds⟩
  obtain ⟨row, hrow⟩ := h.item d x hx
  obtain ⟨hfind, hlive⟩ := findLive_eq_some.mp hrow.found
  by_cases hsame : shown.server.get? x = some (desired finalItems c i)
  · have hwaits : x ∉ (persist shown.server finalItems).map Patch.id := by
      intro hmem
      obtain ⟨p, hp, rfl⟩ := List.mem_map.mp hmem
      obtain ⟨d, j, ⟨hat', hchanged⟩, -⟩ := mem_persist.mp hp
      obtain ⟨rfl, rfl⟩ := at_unique hd.arranged.apart hat hat'
      exact hchanged hsame
    refine ⟨row, findLive_eq_some.mpr ⟨(hm.waiting x hwaits).trans hfind, hlive⟩, ?_, hrow.type⟩
    exact Option.some.inj (hrow.fields.symm.trans hsame)
  · have hp : ⟨x, desired finalItems c i⟩ ∈ persist shown.server finalItems := mem_persist.mpr ⟨c, i, ⟨hat, hsame⟩, rfl⟩
    refine ⟨row.patched st.kb ⟨x, desired finalItems c i⟩,
      findLive_eq_some.mpr ⟨hm.written _ hp row hrow.found, hlive⟩, rfl, ?_⟩
    exact hrow.type

/-- The tree in the sidebar is the tree on the server again. -/
theorem saved : Mirrors (shown.saved finalItems) st' := by
  have hkb := hm.kb_eq
  have hcategories : st'.kb.categories = st.kb.categories := by rw [hkb]
  refine ⟨hd.arranged, fun id hid => ?_, fun c x hx => ?_, fun c list hlist => ?_, fun row hrow hlive hsight => ?_⟩
  · rw [hcategories]
    have hkey : (shown.items.get? (.catFolders id)).isSome ∨ (shown.items.get? (.catPages id)).isSome := by
      rw [← hd.rearranged.containers, ← hd.rearranged.containers]
      exact hid
    exact h.category id hkey
  · obtain ⟨i, hat⟩ := at_of_holds hx
    obtain ⟨row, hrow, hfields, htype⟩ := h.landed hd hm hat
    refine ⟨row, hrow, htype, ?_, ?_⟩
    · rw [hfields]
      exact saved_server hd.arranged.apart hat
    · have hparent : row.parentId = (desired finalItems c i).parentId := by rw [← hfields]; rfl
      have hcategory : row.categoryId = (desired finalItems c i).categoryId := by rw [← hfields]; rfl
      rw [hparent, hcategory]
      rfl
  · rw [List.pairwise_iff_getElem]
    intro i j hi hj hlt row row' hrow hrow'
    obtain ⟨found, hfound, hfields, -⟩ := h.landed hd hm (i := i) ⟨list, hlist, List.getElem?_eq_getElem hi⟩
    obtain ⟨found', hfound', hfields', -⟩ := h.landed hd hm (i := j) ⟨list, hlist, List.getElem?_eq_getElem hj⟩
    cases hrow.symm.trans hfound
    cases hrow'.symm.trans hfound'
    have horder : row.sortOrder = i := congrArg ServerFields.sortOrder hfields
    have horder' : row'.sortOrder = j := congrArg ServerFields.sortOrder hfields'
    omega
  · by_cases hshown : ∃ c, Holds shown.items c row.id
    · exact hd.rearranged.held.mpr hshown
    · have hwaits : row.id ∉ (persist shown.server finalItems).map Patch.id := by
        intro hmem
        obtain ⟨p, hp, hid⟩ := List.mem_map.mp hmem
        obtain ⟨c, i, ⟨hat, -⟩, -⟩ := mem_persist.mp hp
        exact hshown (hd.rearranged.held.mp ⟨c, hid ▸ hat.holds⟩)
      have hfind := (hm.waiting row.id hwaits).symm.trans (Table.find_of_mem hrow)
      have hsight' : row.spaceId = defaultSpaceId ∨ ∃ y c, row.parentId = some y ∧ Holds shown.items c y := by
        rcases hsight with hspace | ⟨y, c, hy, hc⟩
        · exact Or.inl hspace
        · obtain ⟨d, hd'⟩ := hd.rearranged.held.mp ⟨c, hc⟩
          exact Or.inr ⟨y, d, hy, hd'⟩
      exact absurd (h.complete row (Table.find_eq_some.mp hfind).1 hlive hsight') hshown

end Mirrors

/-! ## The drops that agree -/

/-- One request can be the first. -/
theorem exists_requests_first {patches : List Patch} {p : Patch} (hp : p ∈ patches) (order : RowOrder) :
    ∃ rest : List (RowOrder × Patch), (((order, p) :: rest).map Prod.snd).Perm patches := by
  refine ⟨(patches.erase p).map fun q => (order, q), ?_⟩
  rw [List.map_cons, List.map_map]
  have hmap : (patches.erase p).map (Prod.snd ∘ fun q => (order, q)) = patches.erase p := List.map_id _
  rw [hmap]
  exact (List.perm_cons_erase hp).symm

/-- The sidebar shows the tree of the server, the user may update all items in it, and a drop is accepted. -/
theorem drop_agrees_iff (arrayMove : List String → Int → Int → List String) (hmove : Permutes arrayMove)
    (shown : BuiltState) (st : WikiState) (user : AuthenticatedUser) (hshown : Mirrors shown st)
    (hmay : ∀ c x, Holds shown.items c x → MayUpdate st user x)
    (hauthor : ∀ row ∈ st.kb.pages, (st.db.directory.users.find row.authorId).isSome) (activeItem : String)
    (overs : List (Option Over × Bool)) (target : Option Over) (finalItems : Items)
    (hdrop : handleDragEnd arrayMove (drag shown activeItem overs) activeItem target = some finalItems) :
    (∀ requests, (requests.map Prod.snd).Perm (persist shown.server finalItems) →
      Agrees user shown finalItems st requests) ↔
      ¬MovesFullFolder shown.items finalItems ∧ MayLand st user shown.server finalItems := by
  obtain ⟨hdragged, hmeta, -⟩ := drag_dropped (a := activeItem) overs hshown.arranged
  have harranged : Arranged (drag shown activeItem overs).items (drag shown activeItem overs).itemMeta := by
    rw [hmeta]
    exact hdragged.arranged
  have hend := handleDragEnd_dropped harranged hmove hdrop
  rw [hmeta] at hend
  have hd : Dropped activeItem shown.items finalItems shown.itemMeta :=
    ⟨hend.arranged, hdragged.rearranged.trans hend.rearranged⟩
  constructor
  · intro hagrees
    have hfirst : ∀ p ∈ persist shown.server finalItems, ∀ order, ∃ next, st.patch (some user) (order, p) = .ok next := by
      intro p hp order
      obtain ⟨rest, hperm⟩ := exists_requests_first hp order
      obtain ⟨final, hrun⟩ := Option.isSome_iff_exists.mp (hagrees _ hperm).succeeds
      obtain ⟨next, hstep, -⟩ := Runs.run_cons.mp hrun
      exact ⟨next, Fallible.toOption_eq_some.mp hstep⟩
    refine ⟨?_, ?_⟩
    · rintro ⟨folderId, x, hx, hne⟩
      -- the request for a page in the folder comes first, and finds the folder in its old category
      have hfolderId : folderId = activeItem := by
        by_contra hother
        exact hne (categoryOfFolder_other hshown.arranged.apart hd.arranged.apart hd.rearranged hother)
      obtain ⟨catId, hfolder⟩ := (hshown.arranged.box folderId).mp hx.isSome
      have hxactive : x ≠ activeItem := by
        rintro rfl
        have hpage := hshown.arranged.target _ x hx
        rw [← hfolderId, valid_catFolders.mp (hshown.arranged.target _ folderId hfolder)] at hpage
        cases hpage
      obtain ⟨i, hat⟩ := at_of_holds ((hd.rearranged.others x _ hxactive).mpr hx)
      obtain ⟨row, hrow⟩ := hshown.item _ x hx
      obtain ⟨folder, hfolderRow⟩ := hshown.item _ folderId hfolder
      have hplace := hfolderRow.place
      have hrowplace := hrow.place
      simp only [containerAttrs, Prod.mk.injEq] at hplace hrowplace
      have hchanged : shown.server.get? x ≠ some (desired finalItems (.folderBox folderId) i) := by
        rw [hrow.fields]
        intro heq
        have hcategory : row.categoryId = categoryOfFolder finalItems folderId :=
          congrArg ServerFields.categoryId (Option.some.inj heq)
        exact hne (by rw [← hcategory, hrowplace.2])
      have hp : ⟨x, desired finalItems (.folderBox folderId) i⟩ ∈ persist shown.server finalItems :=
        mem_persist.mpr ⟨_, i, ⟨hat, hchanged⟩, rfl⟩
      obtain ⟨next, hnext⟩ := hfirst _ hp .stored
      obtain ⟨page, spaceId, hid, hupdated⟩ := update_updated hnext
      obtain ⟨-, found, hfound, -, -, -, hcategory⟩ := hupdated.folder rfl folderId rfl
      cases (findLive_eq_some.mp hfolderRow.found).1.symm.trans hfound
      have hnew : folder.categoryId = categoryOfFolder finalItems folderId := hcategory
      refine hne ?_
      rw [← hnew, hplace.2, categoryOfFolder_eq hshown.arranged.apart hfolder]
    · intro c i x row hchanged hrow
      have hp : ⟨x, desired finalItems c i⟩ ∈ persist shown.server finalItems := mem_persist.mpr ⟨c, i, hchanged, rfl⟩
      have hasks : ∀ order, Enabled st.kb (st.kb.requestedSpace (placeIn finalItems c) row) .wiki ∧
          st.assertPageDestination order (some user) (placeIn finalItems c)
            (st.kb.requestedSpace (placeIn finalItems c) row) .update (some row) = .ok () := by
        intro order
        obtain ⟨next, hnext⟩ := hfirst _ hp order
        obtain ⟨row', hrow', henabled, hdestination⟩ := patch_asks hnext
        cases hrow.symm.trans hrow'
        exact ⟨henabled, hdestination⟩
      exact ⟨(hasks .stored).1, fun _ order => (hasks order).2⟩
  · rintro ⟨hfull, hland⟩ requests hperm
    obtain ⟨st', hrun, hm⟩ := run_patches (hshown.safe hd hmay hauthor hfull hland) hperm
    have hserved := serveAll_of_run hrun
    refine ⟨by rw [hrun]; rfl, ?_, fun c i x hat => ?_, fun hnone => ?_⟩
    · rw [hserved]
      exact hshown.saved hd hm
    · obtain ⟨row, hrow, hfields, -⟩ := hshown.landed hd hm hat
      rw [hserved]
      exact ⟨row, hrow, hfields⟩
    · rw [hrun] at hnone
      cases hnone

namespace DropDemo

def row (id : String) (type : PageType) (parentId : Option String) : Page :=
  ⟨id, id, id, type, "", none, .published, false, false, 1, 0, none, none, defaultSpaceId, "admin",
    some "guides", parentId⟩

/-- Two categories, one of them with a folder that has a page, and with a page outside of it. -/
def start : WikiState :=
  { TreeDemo.start with db := { TreeDemo.start.db with knowledge := { TreeDemo.start.db.knowledge with
      categories := ⟨[⟨"guides", "Guides", "guides", .wiki, none, none, 0, defaultSpaceId⟩,
        ⟨"rules", "Rules", "rules", .wiki, none, none, 0, defaultSpaceId⟩], by decide⟩
      pages := ⟨[row "setup" .folder none, row "linux" .page (some "setup"), row "news" .page none], by decide⟩ } } }

def cats : List SidebarCategory :=
  [⟨"guides", [⟨"setup", 0, some "guides", [⟨"linux", 0, some "setup", some "guides"⟩]⟩],
    [⟨"news", 0, none, some "guides"⟩]⟩,
    ⟨"rules", [], []⟩]

def spliced (list : List String) (oldIndex newIndex : Int) : List String :=
  match list[oldIndex.toNat]? with
  | some id => (list.eraseIdx oldIndex.toNat).insertIdx newIndex.toNat id
  | none => list

theorem spliced_permutes : Permutes spliced := by
  intro list oldIndex newIndex hold hold' hnew hnew'
  have hlt : oldIndex.toNat < list.length := by omega
  unfold spliced
  rw [List.getElem?_eq_getElem hlt]
  have hlength : (list.eraseIdx oldIndex.toNat).length = list.length - 1 := List.length_eraseIdx_of_lt hlt
  have hinsert := List.perm_insertIdx list[oldIndex.toNat] (list.eraseIdx oldIndex.toNat) (i := newIndex.toNat) (by omega)
  exact hinsert.trans (List.getElem_cons_eraseIdx_perm hlt)

theorem liveTree : LiveTree cats start where
  categories := by decide
  once := by decide
  category := by decide
  row := by decide
  folder := by decide
  inFolder := by decide
  page := by decide
  ordered := by decide
  complete := by decide

theorem mayUpdate : ∀ c x, Holds (buildState cats).items c x → MayUpdate start TreeDemo.admin x := by
  intro c x hx order
  have hid : x ∈ shownIds cats := liveTree.mem_shownIds.mpr ⟨c, hx⟩
  have hall :
      ∀ id ∈ shownIds cats, start.assertAllowed .stored (some TreeDemo.admin) ⟨.pages, .update, .page, id⟩ = .ok () := by
    decide +kernel
  rw [assertAllowed_withoutRules rfl rfl TargetType.noConfusion]
  exact hall x hid

theorem authors : ∀ row ∈ start.kb.pages, (start.db.directory.users.find row.authorId).isSome := by
  have hall : ∀ row ∈ start.kb.pages.rows, (start.db.directory.users.find row.authorId).isSome := by decide
  exact hall

/-- A page goes into the folder. -/
def intoFolder : List (Option Over × Bool) := [(some (.container (.folderBox "setup")), false)]

/-- The folder goes to the other category. -/
def toRules : List (Option Over × Bool) := [(some (.container (.catFolders "rules")), false)]

end DropDemo

/-- A page that is dropped into a folder. -/
theorem drop_agrees_iff_folder : ∃ finalItems,
    handleDragEnd DropDemo.spliced (drag (buildState DropDemo.cats) "news" DropDemo.intoFolder) "news"
      (some (.item "news")) = some finalItems ∧
    ((∀ requests, (requests.map Prod.snd).Perm (persist (buildState DropDemo.cats).server finalItems) →
        Agrees TreeDemo.admin (buildState DropDemo.cats) finalItems DropDemo.start requests) ↔
      ¬MovesFullFolder (buildState DropDemo.cats).items finalItems ∧
        MayLand DropDemo.start TreeDemo.admin (buildState DropDemo.cats).server finalItems) := by
  have hsome : (handleDragEnd DropDemo.spliced (drag (buildState DropDemo.cats) "news" DropDemo.intoFolder) "news"
      (some (.item "news"))).isSome := by decide +kernel
  obtain ⟨finalItems, hdrop⟩ := Option.isSome_iff_exists.mp hsome
  exact ⟨finalItems, hdrop, drop_agrees_iff DropDemo.spliced DropDemo.spliced_permutes _ DropDemo.start TreeDemo.admin
    (buildState_mirrors DropDemo.liveTree) DropDemo.mayUpdate DropDemo.authors "news" _ _ finalItems hdrop⟩

/-- The folder arrives in the other category without its page, whose request is refused, and the sidebar rolls back. -/
theorem folder_leaves_pages : LiveTree DropDemo.cats DropDemo.start ∧
    (∀ c x, Holds (buildState DropDemo.cats).items c x → MayUpdate DropDemo.start TreeDemo.admin x) ∧
    ∃ finalItems, handleDragEnd DropDemo.spliced (drag (buildState DropDemo.cats) "setup" DropDemo.toRules) "setup"
      (some (.item "setup")) = some finalItems ∧
    ∃ requests, (requests.map Prod.snd).Perm (persist (buildState DropDemo.cats).server finalItems) ∧
      Runs.run (WikiState.patchStep (some TreeDemo.admin)) DropDemo.start requests = none ∧
      ((DropDemo.start.serveAll (some TreeDemo.admin) requests).kb.findLive "setup").map Page.categoryId =
        some (some "rules") ∧
      ((DropDemo.start.serveAll (some TreeDemo.admin) requests).kb.findLive "linux").map Page.categoryId =
        some (some "guides") ∧
      ¬Mirrors (buildState DropDemo.cats) (DropDemo.start.serveAll (some TreeDemo.admin) requests) := by
  refine ⟨DropDemo.liveTree, DropDemo.mayUpdate, ?_⟩
  have hdrop : (handleDragEnd DropDemo.spliced (drag (buildState DropDemo.cats) "setup" DropDemo.toRules) "setup"
      (some (.item "setup"))).any (fun finalItems => persist (buildState DropDemo.cats).server finalItems =
        [⟨"linux", ⟨0, some "setup", some "rules"⟩⟩, ⟨"setup", ⟨0, none, some "rules"⟩⟩]) = true := by decide +kernel
  obtain ⟨finalItems, hfinal, hpersist⟩ := (Option.any_eq_true _ _).mp hdrop
  let requests : List (RowOrder × Patch) :=
    [(.stored, ⟨"linux", ⟨0, some "setup", some "rules"⟩⟩), (.stored, ⟨"setup", ⟨0, none, some "rules"⟩⟩)]
  have hfailed :
    (Runs.run (WikiState.patchStep (some TreeDemo.admin)) DropDemo.start requests).isNone := by decide +kernel
  have hsetup : ((DropDemo.start.serveAll (some TreeDemo.admin) requests).kb.findLive "setup").map Page.categoryId =
      some (some "rules") := by decide +kernel
  have hlinux : ((DropDemo.start.serveAll (some TreeDemo.admin) requests).kb.findLive "linux").map Page.categoryId =
      some (some "guides") := by decide +kernel
  refine ⟨finalItems, hfinal, requests, ?_, Option.isNone_iff_eq_none.mp hfailed, hsetup, hlinux, fun hmirrors => ?_⟩
  · rw [of_decide_eq_true hpersist]
    exact List.Perm.refl _
  · have hshown : (buildState DropDemo.cats).items.get? (.catFolders "guides") = some ["setup"] := by decide +kernel
    obtain ⟨row, hrow⟩ := hmirrors.item (.catFolders "guides") "setup" ⟨_, hshown, List.mem_singleton.mpr rfl⟩
    have hcategory : row.categoryId = some "guides" := congrArg Prod.snd hrow.place
    rw [hrow.found, Option.map_some, hcategory] at hsetup
    exact absurd hsetup (by decide)

end AdWiki.Web
