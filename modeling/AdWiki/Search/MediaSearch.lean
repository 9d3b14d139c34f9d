import AdWiki.Search.SearchPages

/-!
# Media in the search and at download

The search looks for the pages of a medium among those that it has asked the ACLs about: live pages, and only published
ones where it searches pages too. The download asks about every page of the medium.

* `isAccessibleTo_iff`: who may open a medium; `mem_visibleMediaIds`: the lists show the same media.
* `media_hit_iff`: who finds one.
* `search_agrees_iff`: where both agree.
* `draft_image_hidden`: a medium of a draft, in two searches for it.
-/

namespace AdWiki.Search

open Access Wiki Fallible

/-- `MediaService.isAccessibleTo` -/
def isAccessibleTo (order : RowOrder) (store : SearchStore) (id : String) (actor : AuthenticatedUser) :
    Except HttpError Bool :=
  if store.db.directory.isAllowed actor ⟨.media, .read⟩ = false then .ok false
  else
    match store.media.find id with
    | none => .ok false
    | some media => do
      let pages := store.pageMedia.findMany order fun link => link.mediaId == media.id
      if pages.length = 0 then pure true
      else do
        let visible ← store.db.allowedTargetIds order actor ⟨.pages, .read, .page, pages.map PageMedia.pageId⟩
        pure (decide (visible.length > 0))

def pageIdsOf (order : RowOrder) (store : SearchStore) (media : Media) : List String :=
  (store.pageMedia.findMany order fun link => link.mediaId == media.id).map PageMedia.pageId

/-- `MediaService.visibleMediaIds`, for the lists of media. -/
def visibleMediaIds (order : RowOrder) (store : SearchStore) (actor : AuthenticatedUser) (media : List Media) :
    Except HttpError (List String) := do
  let pageIds := Js.distinct (media.flatMap (pageIdsOf order store))
  let allowedPageIds ← store.db.allowedTargetIds order actor ⟨.pages, .read, .page, pageIds⟩
  pure ((media.filter fun item =>
    (pageIdsOf order store item).length == 0 || (pageIdsOf order store item).any allowedPageIds.contains).map Media.id)

variable {Rank : Type} {pg : Postgres Rank} {order : RowOrder} {store : SearchStore} {query : GlobalSearchQuery}
  {user : AuthenticatedUser}
  {now : Time} {access : SearchAccess} {sorting : Sorting pg} {media : Media}

/-! ## The download -/

/-- `page_media` references the pages. -/
def LinksExist (store : SearchStore) : Prop :=
  ∀ link ∈ store.pageMedia, (store.db.knowledge.pages.find link.pageId).isSome

theorem isAccessibleTo_iff (hrefs : References store.db.knowledge) (hlinks : LinksExist store)
    (hmedia : media ∈ store.media) {allowed : Bool} (h : isAccessibleTo order store media.id user = .ok allowed) :
    allowed = true ↔ store.db.directory.isAllowed user ⟨.media, .read⟩ = true ∧
      ((∀ link ∈ store.pageMedia, link.mediaId ≠ media.id) ∨
        ∃ link ∈ store.pageMedia, link.mediaId = media.id ∧ MayRead order store user .pages .page link.pageId) := by
  unfold isAccessibleTo at h
  split at h
  · next hdenied =>
    cases h
    simp [hdenied]
  · next hgranted =>
    rw [Bool.not_eq_false] at hgranted
    rw [Table.find_of_mem hmedia] at h
    dsimp only at h
    have hlink : ∀ link, link ∈ store.pageMedia.findMany order (fun link => link.mediaId == media.id) ↔
        link ∈ store.pageMedia ∧ link.mediaId = media.id := by
      intro link
      rw [Table.mem_findMany, beq_iff_eq]
    split at h
    · next hnone =>
      obtain rfl := pure_eq_ok.mp h
      rw [List.length_eq_zero_iff] at hnone
      refine iff_of_true rfl ⟨hgranted, Or.inl fun link hmem hid => ?_⟩
      have hfound := (hlink link).mpr ⟨hmem, hid⟩
      rw [hnone] at hfound
      exact absurd hfound List.not_mem_nil
    · next hsome =>
      obtain ⟨visible, hvisible, h⟩ := bind_eq_ok.mp h
      obtain rfl := pure_eq_ok.mp h
      have hids : ∀ id, id ∈ visible ↔
        id ∈ (store.pageMedia.findMany order fun link => link.mediaId == media.id).map PageMedia.pageId ∧
          MayRead order store user .pages .page id := fun id =>
        mem_allowedTargetIds_iff order hrefs (by exact (by decide : isPermissionSupported ⟨.pages, .read⟩ = true))
          (fun id hid => by
          obtain ⟨link, hmem, rfl⟩ := List.mem_map.mp hid
          exact hlinks link ((hlink link).mp hmem).1) hvisible
      obtain ⟨first, hfirst⟩ := List.exists_mem_of_length_pos (Nat.pos_of_ne_zero hsome)
      have hlinked : ¬∀ link ∈ store.pageMedia, link.mediaId ≠ media.id := fun hall => by
        obtain ⟨hmem, hid⟩ := (hlink first).mp hfirst
        exact hall first hmem hid
      rw [decide_eq_true_eq, gt_iff_lt, List.length_pos_iff_exists_mem]
      constructor
      · rintro ⟨id, hid⟩
        obtain ⟨hmem, hread⟩ := (hids id).mp hid
        obtain ⟨link, hfound, rfl⟩ := List.mem_map.mp hmem
        obtain ⟨hrow, hmediaId⟩ := (hlink link).mp hfound
        exact ⟨hgranted, Or.inr ⟨link, hrow, hmediaId, hread⟩⟩
      · rintro ⟨-, hall | ⟨link, hrow, hmediaId, hread⟩⟩
        · exact absurd hall hlinked
        · exact ⟨link.pageId, (hids _).mpr ⟨List.mem_map_of_mem ((hlink link).mpr ⟨hrow, hmediaId⟩), hread⟩⟩

/-- The lists of media show those that the download allows. -/
theorem mem_visibleMediaIds (hrefs : References store.db.knowledge) (hlinks : LinksExist store) {items : List Media}
    {ids : List String}
    (h : visibleMediaIds order store user items = .ok ids) (hitems : ∀ item ∈ items, item ∈ store.media)
    (hmedia : media ∈ items) :
    media.id ∈ ids ↔ (∀ link ∈ store.pageMedia, link.mediaId ≠ media.id) ∨
      ∃ link ∈ store.pageMedia, link.mediaId = media.id ∧ MayRead order store user .pages .page link.pageId := by
  obtain ⟨allowed, hallowed, h⟩ := bind_eq_ok.mp h
  obtain rfl := pure_eq_ok.mp h
  have hpageId : ∀ item id, id ∈ pageIdsOf order store item ↔
      ∃ link ∈ store.pageMedia, link.mediaId = item.id ∧ link.pageId = id := by
    intro item id
    simp only [pageIdsOf, List.mem_map, Table.mem_findMany, beq_iff_eq, and_assoc]
  have hids : ∀ id, id ∈ allowed ↔
      id ∈ Js.distinct (items.flatMap (pageIdsOf order store)) ∧ MayRead order store user .pages .page id :=
    fun id =>
      mem_allowedTargetIds_iff order hrefs (by exact (by decide : isPermissionSupported ⟨.pages, .read⟩ = true))
        (fun id hid => by
      obtain ⟨item, -, hid⟩ := List.mem_flatMap.mp (Js.mem_distinct.mp hid)
      obtain ⟨link, hlink, -, rfl⟩ := (hpageId item id).mp hid
      exact hlinks link hlink) hallowed
  have hself : media.id ∈ (items.filter fun item => (pageIdsOf order store item).length == 0 ||
      (pageIdsOf order store item).any allowed.contains).map Media.id ↔
      (pageIdsOf order store media).length = 0 ∨ ∃ id ∈ pageIdsOf order store media, id ∈ allowed := by
    rw [List.mem_map]
    constructor
    · rintro ⟨item, hitem, hid⟩
      obtain ⟨hmem, hvisible⟩ := List.mem_filter.mp hitem
      obtain rfl := Rows.eq_of_key store.media.unique (hitems item hmem) (hitems media hmedia) hid
      simpa using hvisible
    · intro hvisible
      exact ⟨media, List.mem_filter.mpr ⟨hmedia, by simpa using hvisible⟩, rfl⟩
  rw [hself]
  refine or_congr ?_ ?_
  · rw [List.length_eq_zero_iff, List.eq_nil_iff_forall_not_mem]
    constructor
    · exact fun hnone link hlink hid => hnone link.pageId ((hpageId media _).mpr ⟨link, hlink, hid, rfl⟩)
    · rintro hnone id hid
      obtain ⟨link, hlink, hmediaId, -⟩ := (hpageId media id).mp hid
      exact hnone link hlink hmediaId
  · constructor
    · rintro ⟨id, hid, hread⟩
      obtain ⟨link, hlink, hmediaId, rfl⟩ := (hpageId media id).mp hid
      exact ⟨link, hlink, hmediaId, ((hids _).mp hread).2⟩
    · rintro ⟨link, hlink, hmediaId, hread⟩
      have hid := (hpageId media link.pageId).mpr ⟨link, hlink, hmediaId, rfl⟩
      exact ⟨link.pageId, hid, (hids _).mpr ⟨Js.mem_distinct.mpr (List.mem_flatMap.mpr ⟨media, hmedia, hid⟩), hread⟩⟩

/-! ## The search -/

/-- The medium is on some page of the results. -/
def MediaHit (pg : Postgres Rank) (order : RowOrder) (store : SearchStore) (sorting : Sorting pg) (now : Time)
    (query : GlobalSearchQuery) (user : AuthenticatedUser) (id : String) : Prop :=
  ∃ k response, globalSearch pg order store sorting now (query.onPage k) user = .ok response ∧
    ∃ result ∈ response.data, result.type = .media ∧ result.id = id

/-- Every row is on the page of its place. -/
theorem mem_pages_iff (h : searchAccess order store query user = .ok access) {result : GlobalSearchResult} :
    (∃ k response, globalSearch pg order store sorting now (query.onPage k) user = .ok response ∧
      result ∈ response.data) ↔
      ∃ row ∈ (branches pg store query.q now access query.types).flatten, toResult row = result := by
  have hperm := (sorting.sorts (branches pg store query.q now access query.types).flatten).perm
  have hread : ∀ k, searchAccess order store (query.onPage k) user = .ok access := fun _ => h
  have hpage : ∀ k, globalSearch pg order store sorting now (query.onPage k) user = .ok _ :=
    fun k => globalSearch_eq (hread k) rfl rfl
  constructor
  · rintro ⟨k, response, hresponse, hmem⟩
    rw [hpage k] at hresponse
    cases hresponse
    obtain ⟨row, hrow, rfl⟩ := List.mem_map.mp hmem
    exact ⟨row, hperm.mem_iff.mp (List.mem_of_mem_drop (List.mem_of_mem_take hrow)), rfl⟩
  · rintro ⟨row, hrow, rfl⟩
    obtain ⟨j, hj⟩ := List.mem_iff_getElem?.mp (hperm.mem_iff.mpr hrow)
    refine ⟨j / query.limit, _, hpage _, List.mem_map_of_mem (Paging.mem_page hj ?_ ?_)⟩
    · exact Nat.div_mul_le_self j query.limit
    · have hlt := Nat.lt_div_mul_add (a := j) query.limit_pos
      show j < (j / query.limit + 1 - 1 + 1) * query.limit
      rw [Nat.add_sub_cancel, Nat.add_mul, Nat.one_mul]
      exact hlt

theorem media_hit_iff (hrefs : References store.db.knowledge) (h : searchAccess order store query user = .ok access)
    (hmedia : media ∈ store.media) (hname : isLike pg query.q media.filename = true) :
    MediaHit pg order store sorting now query user media.id ↔
      Permitted store query user .media .media ∧ FindsMedia order store query user media := by
  have haccess := searchAccess_ok hrefs h
  constructor
  · rintro ⟨k, response, hresponse, result, hresult, htype, hid⟩
    obtain ⟨row, hrow, rfl⟩ := (mem_pages_iff h).mp ⟨k, response, hresponse, hresult⟩
    cases (mem_results haccess now).mp hrow with
    | media hpermitted hmem hreads _ =>
      obtain rfl := Rows.eq_of_key store.media.unique hmem hmedia hid
      exact ⟨hpermitted, hreads⟩
    | page | note | standard | tag => cases htype
  · rintro ⟨hpermitted, hreads⟩
    have hsee : MaySee pg order store query user (mediaRow pg query.q media) :=
      .media hpermitted hmedia hreads (by simp [mediaMatches, hname])
    obtain ⟨k, response, hresponse, hmem⟩ :
      ∃ k response, globalSearch pg order store sorting now (query.onPage k) user = .ok response ∧
        toResult (mediaRow pg query.q media) ∈ response.data :=
          (mem_pages_iff h).mpr ⟨_, (mem_results haccess now).mpr hsee, rfl⟩
    exact ⟨k, response, hresponse, _, hmem, rfl, rfl⟩

/-! ## Both -/

/-- The search finds a medium of this name exactly if the download lets the user open it. -/
def SearchAgrees (pg : Postgres Rank) (order : RowOrder) (store : SearchStore) (sorting : Sorting pg) (now : Time)
    (query : GlobalSearchQuery) (user : AuthenticatedUser) : Prop :=
  ∀ media ∈ store.media, isLike pg query.q media.filename = true →
    (MediaHit pg order store sorting now query user media.id ↔ isAccessibleTo order store media.id user = .ok true)

theorem search_agrees_iff (pg : Postgres Rank) (order : RowOrder) (store : SearchStore)
    (sorting : Sorting pg) (now : Time)
    (query : GlobalSearchQuery) (user : AuthenticatedUser) (response : GlobalSearchResponse)
    (hrefs : References store.db.knowledge)
    (hlinks : LinksExist store) (hselects : query.selects .media = true)
    (hsearch : globalSearch pg order store sorting now query user = .ok response)
    (hopen : ∀ media ∈ store.media, ∃ allowed, isAccessibleTo order store media.id user = .ok allowed) :
    SearchAgrees pg order store sorting now query user ↔
      (store.db.directory.isAllowed user ⟨.media, .read⟩ = true →
        ∀ media ∈ store.media, isLike pg query.q media.filename = true →
          ∀ link ∈ store.pageMedia, link.mediaId = media.id → MayRead order store user .pages .page link.pageId →
            ∃ link' ∈ store.pageMedia, link'.mediaId = media.id ∧ ∃ page, LeadsToMedia order store query user page ∧
              page.id = link'.pageId) := by
  obtain ⟨access, hread⟩ := searchAccess_of_ok hsearch
  have hopens : ∀ media ∈ store.media, isAccessibleTo order store media.id user = .ok true ↔
      store.db.directory.isAllowed user ⟨.media, .read⟩ = true ∧
        ((∀ link ∈ store.pageMedia, link.mediaId ≠ media.id) ∨
          ∃ link ∈ store.pageMedia, link.mediaId = media.id ∧ MayRead order store user .pages .page link.pageId) := by
    intro media hmedia
    obtain ⟨allowed, hallowed⟩ := hopen media hmedia
    rw [← isAccessibleTo_iff hrefs hlinks hmedia hallowed, hallowed, Except.ok.injEq]
  constructor
  · intro hagrees hgranted media hmedia hname link hlink hid hmay
    have hhit := (hagrees media hmedia hname).mpr ((hopens media hmedia).mpr ⟨hgranted, Or.inr ⟨link, hlink, hid, hmay⟩⟩)
    rcases ((media_hit_iff hrefs hread hmedia hname).mp hhit).2 with hnone | hfinds
    · exact absurd hid (hnone link hlink)
    · exact hfinds
  · intro hleads media hmedia hname
    rw [media_hit_iff hrefs hread hmedia hname, hopens media hmedia]
    constructor
    · rintro ⟨hpermitted, hnone | ⟨link, hlink, hid, page, hpage, hpageId⟩⟩
      · exact ⟨hpermitted.2, Or.inl hnone⟩
      · exact ⟨hpermitted.2, Or.inr ⟨link, hlink, hid, hpageId ▸ hpage.allowed⟩⟩
    · rintro ⟨hgranted, hnone | ⟨link, hlink, hid, hmay⟩⟩
      · exact ⟨⟨hselects, hgranted⟩, Or.inl hnone⟩
      · exact ⟨⟨hselects, hgranted⟩, Or.inr (hleads hgranted media hmedia hname link hlink hid hmay)⟩

namespace SearchDemo

/-- The medium is on the draft only. -/
def linked : SearchStore := storeOf (.single image) (.single ⟨"draft", "image"⟩)

theorem linked_exist : LinksExist linked := fun link h => by
  rw [List.mem_singleton.mp h]
  rfl

end SearchDemo

/-- A search for media alone. -/
theorem search_agrees_iff_media :
    SearchAgrees SearchDemo.postgres .stored SearchDemo.linked SearchDemo.stable 0
      (SearchDemo.ofPage (some [.media]) 1 (by decide))
        SearchDemo.admin ↔
      (SearchDemo.linked.db.directory.isAllowed SearchDemo.admin ⟨.media, .read⟩ = true →
        ∀ media ∈ SearchDemo.linked.media, isLike SearchDemo.postgres "plan" media.filename = true →
          ∀ link ∈ SearchDemo.linked.pageMedia, link.mediaId = media.id →
            MayRead .stored SearchDemo.linked SearchDemo.admin .pages .page link.pageId →
              ∃ link' ∈ SearchDemo.linked.pageMedia, link'.mediaId = media.id ∧
                ∃ page, LeadsToMedia .stored SearchDemo.linked
                (SearchDemo.ofPage (some [.media]) 1 (by decide)) SearchDemo.admin page ∧ page.id = link'.pageId) := by
  have hsearch : globalSearch SearchDemo.postgres .stored SearchDemo.linked SearchDemo.stable 0
      (SearchDemo.ofPage (some [.media]) 1 (by decide)) SearchDemo.admin =
        .ok ⟨[⟨.media, "image", "plan.png", none, .filename, 1, "/media?media=image"⟩],
          ⟨1, 1, 20, "plan"⟩⟩ := by decide +kernel
  refine search_agrees_iff _ _ _ _ _ _ _ _ (SearchDemo.references _ _) SearchDemo.linked_exist (by decide) hsearch
    fun media hmedia => ?_
  rw [List.mem_singleton.mp hmedia]
  exact ⟨true, by decide +kernel⟩

/-- The administrator may open the medium, and the search for everything does not find it. -/
theorem draft_image_hidden :
    isAccessibleTo .stored SearchDemo.linked "image" SearchDemo.admin = .ok true ∧
      isLike SearchDemo.postgres "plan" SearchDemo.image.filename = true ∧
      ¬MediaHit SearchDemo.postgres .stored SearchDemo.linked SearchDemo.stable 0 (SearchDemo.ofPage none 1 (by decide))
        SearchDemo.admin
        "image" ∧
      MediaHit SearchDemo.postgres .stored SearchDemo.linked SearchDemo.stable 0
        (SearchDemo.ofPage (some [.media]) 1 (by decide))
        SearchDemo.admin "image" := by
  refine ⟨by decide +kernel, by decide +kernel, ?_, ?_⟩
  · rintro ⟨k, response, hresponse, result, hresult, -⟩
    have hread : searchAccess .stored SearchDemo.linked (SearchDemo.ofPage none 1 (by decide)) SearchDemo.admin =
        .ok ⟨true, true, true, true, [], [], []⟩ := by decide +kernel
    obtain ⟨row, hrow, -⟩ := (mem_pages_iff hread).mp ⟨k, response, hresponse, hresult⟩
    have hrows :
        (branches SearchDemo.postgres SearchDemo.linked "plan" 0 ⟨true, true, true, true, [], [], []⟩
          none).flatten = [] := by
      decide +kernel
    exact absurd (hrows ▸ hrow) List.not_mem_nil
  · exact ⟨0,
      ⟨[⟨.media, "image", "plan.png", none, .filename, 1, "/media?media=image"⟩],
        ⟨1, 1, 20, "plan"⟩⟩, by decide +kernel, _,
      List.mem_singleton.mpr rfl, rfl, rfl⟩

end AdWiki.Search
