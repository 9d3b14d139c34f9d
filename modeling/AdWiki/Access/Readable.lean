import AdWiki.Access.Batch

/-!
# Batches of rows

The lists of the application ask about rows that they have just read. Where the foreign keys hold (`References`), a
batch about existing rows that does not fail has found a well-formed hierarchy for each of them
(`wellFormed_of_resolveHierarchies`), so the batch answers like the targets one by one (`mem_allowedTargetIds_iff`), and
it fails for no other reason (`allowedTargetIds_isOk`).
-/

namespace AdWiki.Access

open Wiki Ancestors Fallible

/-- The foreign keys of the schema between the tables of the knowledge base. -/
structure References (kb : KnowledgeBase) : Prop where
  categorySpace : ∀ category ∈ kb.categories, (kb.spaces.find category.spaceId).isSome
  pageSpace : ∀ page ∈ kb.pages, (kb.spaces.find page.spaceId).isSome
  pageCategory : ∀ page ∈ kb.pages, ∀ id, page.categoryId = some id → (kb.categories.find id).isSome
  noteSpace : ∀ note ∈ kb.notes, ∀ id, note.spaceId = some id → (kb.spaces.find id).isSome
  noteCategory : ∀ note ∈ kb.notes, ∀ id, note.categoryId = some id → (kb.categories.find id).isSome
  standardSpace : ∀ standard ∈ kb.standards, (kb.spaces.find standard.spaceId).isSome
  standardCategory : ∀ standard ∈ kb.standards, ∀ id, standard.categoryId = some id → (kb.categories.find id).isSome

/-- There is a row of the type with the id. -/
def HasRow (kb : KnowledgeBase) (type : TargetType) (id : String) : Prop :=
  match type with
  | .space => (kb.spaces.find id).isSome
  | .category => (kb.categories.find id).isSome
  | .page => (kb.pages.find id).isSome
  | .note => (kb.notes.find id).isSome
  | .standard => (kb.standards.find id).isSome

/-- The service allows the request. -/
def Allowed (order : RowOrder) (db : Database) (actor : AuthenticatedUser) (request : AccessRequest) : Prop :=
  ∃ d, db.evaluate order actor request = .ok d ∧ d.allowed = true

variable {order order' : RowOrder} {db : Database} {kb : KnowledgeBase} {type : TargetType} {id : String}
  {actor : AuthenticatedUser} {request : BatchAccessRequest} {m : Hierarchies} {ids : List String}

/-! ## What a batch has found -/

/-- No row of the batch has failed. -/
theorem collect_rows {α : Type} {key : α → String} {hierarchy : α → Except HttpError (Option ResolvedTargetHierarchy)}
    {rows : List α} (h : collect key hierarchy rows = .ok m) : ∀ row ∈ rows, ∃ found, hierarchy row = .ok found := by
  unfold collect at h
  generalize OrderedMap.empty = start at h
  induction rows generalizing start with
  | nil => simp
  | cons row rows ih =>
    rw [List.foldlM_cons] at h
    obtain ⟨next, hnext, hrest⟩ := bind_eq_ok.mp h
    obtain ⟨found, hfound, -⟩ := bind_eq_ok.mp hnext
    intro r hr
    rcases List.mem_cons.mp hr with rfl | hr
    · exact ⟨found, hfound⟩
    · exact ih next hrest r hr

/-- A loop over the parents of a candidate that succeeds has walked a chain. -/
theorem climbCandidate_chain {pages : Table Page.id} {pagesById : OrderedMap String Page} {candidate current : Page}
    {left : Nat} {visited : List String} {path path' : List ResolvedResourceTarget}
    (hpages : ∀ x page, pagesById.get? x = some page → pages.find x = some page)
    (hcurrent : pages.find current.id = some current)
    (h : climbCandidate pagesById candidate left visited path current = .ok path') :
    ∃ l, PageChain pages current.id l ∧ l.length ≤ left ∧
      ∀ a ∈ l, a.spaceId = candidate.spaceId ∧ a.categoryId = candidate.categoryId := by
  induction left generalizing visited path current with
  | zero => cases h
  | succ left ih =>
    unfold climbCandidate at h
    obtain ⟨-, h⟩ := ite_error_eq_ok.mp h
    obtain ⟨hsame, h⟩ := ite_error_eq_ok.mp h
    obtain ⟨hspace, hcategory⟩ := not_or.mp hsame
    have hline : current.spaceId = candidate.spaceId ∧ current.categoryId = candidate.categoryId :=
      ⟨not_not.mp hspace, not_not.mp hcategory⟩
    cases hparent : current.parentId with
    | none => exact ⟨[current], .root hcurrent hparent, by simp, by simpa using hline⟩
    | some parentId =>
      rw [hparent] at h
      cases hfound : pagesById.get? parentId with
      | none => simp [hfound] at h
      | some parent =>
        simp only [hfound] at h
        have hrow : pages.find parentId = some parent := hpages parentId parent hfound
        have hid : parent.id = parentId := find_id hrow
        obtain ⟨l, hl, hlength, hall⟩ := ih (by rw [hid]; exact hrow) h
        rw [hid] at hl
        refine ⟨current :: l, .child hcurrent hparent hl, by simpa using hlength, ?_⟩
        exact List.forall_mem_cons.mpr ⟨hline, hall⟩

/-- A map of rows finds rows of the table only. -/
theorem find_of_get?_index {α : Type} {key : α → String} {t : Table key} {p : α → Bool} {x : String} {a : α}
    (h : (Table.index key (t.findMany order p)).get? x = some a) : t.find x = some a := by
  rw [Table.get?_index] at h
  exact (Option.filter_eq_some_iff.mp h).1

theorem wellFormed_of_pageHierarchies (hrefs : References kb) (h : pageHierarchies order kb ids = .ok m) {id : String}
    (hid : id ∈ ids) (hrow : HasRow kb .page id) : WellFormed kb .page id := by
  obtain ⟨page, hpage⟩ := Option.isSome_iff_exists.mp hrow
  obtain ⟨hmem, rfl⟩ := Table.find_eq_some.mp hpage
  have hcandidate : page ∈ kb.pages.findMany order fun page => ids.contains page.id :=
    Table.mem_findMany.mpr ⟨hmem, List.contains_iff_mem.mpr hid⟩
  unfold pageHierarchies at h
  simp only at h
  rw [if_neg (List.ne_nil_of_mem hcandidate)] at h
  obtain ⟨found, hfound⟩ := collect_rows h page hcandidate
  unfold candidateHierarchy at hfound
  obtain ⟨path, hclimb, hfound⟩ := bind_eq_ok.mp hfound
  obtain ⟨l, hl, hlength, hline⟩ := climbCandidate_chain (fun _ _ => find_of_get?_index) hpage hclimb
  obtain ⟨space, hspace⟩ := Option.isSome_iff_exists.mp (hrefs.pageSpace page hmem)
  refine ⟨_, .page hpage ⟨hl, hl.nodup fun hrow => find_id hrow, hlength, hline, fun c hc => ?_⟩ hspace⟩
  simp only [hc] at hfound
  cases hget : (Table.index Category.id (kb.categories.findMany order fun category =>
      (Js.distinct ((kb.pages.findMany order fun page => ids.contains page.id).filterMap Page.categoryId)).contains
        category.id)).get? c with
  | none =>
    simp only [hget] at hfound
    cases hfound
  | some row =>
    simp only [hget] at hfound
    by_cases hspaceId : row.spaceId = page.spaceId
    · exact ⟨row, find_of_get?_index hget, hspaceId⟩
    · rw [if_pos hspaceId] at hfound
      cases hfound

/-- The category of an entry that has passed the comparison of its space. -/
theorem categoryIn_of_found {categoryId : Option String} {spaceId : String}
    (hexists : ∀ c, categoryId = some c → (kb.categories.find c).isSome)
    (hspace : ∀ category, categoryId.bind kb.categories.find = some category → category.spaceId = spaceId) :
    CategoryIn kb categoryId spaceId := by
  intro c hc
  obtain ⟨category, hcategory⟩ := Option.isSome_iff_exists.mp (hexists c hc)
  exact ⟨category, hcategory, hspace category (by rw [hc]; exact hcategory)⟩

theorem mem_findMany_ids {α : Type} {key : α → String} {t : Table key} {a : α} (ha : t.find id = some a)
    (hid : id ∈ ids) :
    a ∈ t.findMany order fun row => ids.contains (key row) := by
  obtain ⟨hmem, rfl⟩ := Table.find_eq_some.mp ha
  exact Table.mem_findMany.mpr ⟨hmem, List.contains_iff_mem.mpr hid⟩

/-- A batch of existing rows that has been resolved has a hierarchy for each of them. -/
theorem wellFormed_of_resolveHierarchies (hrefs : References kb) (h : resolveHierarchies order kb type ids = .ok m)
    (hrows : ∀ id ∈ ids, HasRow kb type id) : ∀ id ∈ ids, WellFormed kb type id := by
  intro id hid
  have hdistinct : id ∈ Js.distinct ids := Js.mem_distinct.mpr hid
  have hrow := hrows id hid
  unfold resolveHierarchies at h
  simp only at h
  rw [if_neg (List.ne_nil_of_mem hdistinct)] at h
  cases type with
  | space =>
    obtain ⟨space, hspace⟩ := Option.isSome_iff_exists.mp hrow
    exact ⟨_, .space hspace⟩
  | category =>
    obtain ⟨category, hcategory⟩ := Option.isSome_iff_exists.mp hrow
    obtain ⟨space, hspace⟩ :=
      Option.isSome_iff_exists.mp (hrefs.categorySpace category (Table.find_eq_some.mp hcategory).1)
    exact ⟨_, .category hcategory hspace⟩
  | page => exact wellFormed_of_pageHierarchies hrefs h hdistinct hrow
  | note =>
    obtain ⟨note, hnote⟩ := Option.isSome_iff_exists.mp hrow
    have hmem := (Table.find_eq_some.mp hnote).1
    obtain ⟨found, hfound⟩ := collect_rows h note (mem_findMany_ids hnote hdistinct)
    cases hspaceId : note.spaceId with
    | none => exact ⟨_, .personalNote hnote hspaceId (.refl _)⟩
    | some spaceId =>
      obtain ⟨space, hspace⟩ := Option.isSome_iff_exists.mp (hrefs.noteSpace note hmem spaceId hspaceId)
      refine ⟨_,
        .note hnote hspaceId hspace (categoryIn_of_found (hrefs.noteCategory note hmem) fun category hcategory => ?_)⟩
      rw [hspaceId, Option.bind_some, hspace, hcategory] at hfound
      rw [not_not.mp (ite_error_eq_ok.mp hfound).1]
      exact (Table.find_eq_some.mp hspace).2
  | standard =>
    obtain ⟨standard, hstandard⟩ := Option.isSome_iff_exists.mp hrow
    have hmem := (Table.find_eq_some.mp hstandard).1
    obtain ⟨found, hfound⟩ := collect_rows h standard (mem_findMany_ids hstandard hdistinct)
    obtain ⟨space, hspace⟩ := Option.isSome_iff_exists.mp (hrefs.standardSpace standard hmem)
    refine ⟨_, .standard hstandard hspace
      (categoryIn_of_found (hrefs.standardCategory standard hmem) fun category hcategory => ?_)⟩
    obtain ⟨space', hspace', hfound⟩ := bind_eq_ok.mp hfound
    rw [hspace] at hspace'
    cases hspace'
    rw [hcategory] at hfound
    rw [not_not.mp (ite_error_eq_ok.mp hfound).1]
    exact (Table.find_eq_some.mp hspace).2

/-! ## Batches and single targets -/

/-- Whoever has the permission gets an answer about well-formed hierarchies only. -/
theorem wellFormed_of_evaluateMany {decisions : OrderedMap String ResourceAccessDecision}
    (hrefs : References db.knowledge) (hsupported : isPermissionSupported request.permission = true)
    (hrows : ∀ id ∈ request.targetIds, HasRow db.knowledge request.targetType id)
    (hgranted : db.directory.isAllowed actor request.permission = true)
    (h : db.evaluateMany order actor request = .ok decisions) :
    ∀ id ∈ request.targetIds, WellFormed db.knowledge request.targetType id := by
  intro id hid
  -- the batch has resolved all of its targets
  have hresolved :
      ∃ m, resolveHierarchies order db.knowledge request.targetType (Js.distinct request.targetIds) = .ok m := by
    unfold Database.evaluateMany at h
    simp only [BatchAccessRequest.permission] at hsupported hgranted
    rw [if_neg (by simp [hsupported]), if_neg (List.ne_nil_of_mem (Js.mem_distinct.mpr hid)),
      if_neg (by simp [hgranted])] at h
    obtain ⟨m, hm, -⟩ := bind_eq_ok.mp h
    exact ⟨m, hm⟩
  obtain ⟨m, hm⟩ := hresolved
  refine wellFormed_of_resolveHierarchies hrefs hm (fun id hid => ?_) id (Js.mem_distinct.mpr hid)
  exact hrows id (Js.mem_distinct.mp hid)

/-- A batch of existing rows that does not fail allows what is allowed one by one. -/
theorem mem_allowedTargetIds_iff (order' : RowOrder) (hrefs : References db.knowledge)
    (hsupported : isPermissionSupported request.permission = true)
    (hrows : ∀ id ∈ request.targetIds, HasRow db.knowledge request.targetType id)
    (h : db.allowedTargetIds order actor request = .ok ids) :
    id ∈ ids ↔ id ∈ request.targetIds ∧ Allowed order' db actor (request.single id) := by
  obtain ⟨decisions, hdecisions, hids⟩ := bind_eq_ok.mp h
  cases hgranted : db.directory.isAllowed actor request.permission with
  | false =>
    obtain ⟨denied, hdenied, hget⟩ := evaluateMany_denied order hsupported hgranted
    rw [hdecisions] at hdenied
    cases hdenied
    rw [← pure_eq_ok.mp hids, List.mem_filter, hget id]
    constructor
    · rintro ⟨hid, hany⟩
      rw [if_pos hid] at hany
      cases hany
    · rintro ⟨-, d, hd, hallowed⟩
      have hsingle : db.evaluate order' actor (request.single id) = .ok globalDenied :=
        evaluate_denied hsupported hgranted
      rw [hsingle] at hd
      cases hd
      cases hallowed
  | true =>
    exact mem_allowedTargetIds (wellFormed_of_evaluateMany hrefs hsupported hrows hgranted hdecisions) hsupported h

/-- **A batch of existing rows is answered** exactly if the actor lacks the permission, or every target has a well-formed
hierarchy. -/
theorem allowedTargetIds_isOk (hrefs : References db.knowledge)
    (hsupported : isPermissionSupported request.permission = true)
    (hrows : ∀ id ∈ request.targetIds, HasRow db.knowledge request.targetType id)
    (hfits : ∀ id ∈ request.targetIds, Fits db.knowledge request.targetType id request.resource) :
    (∃ ids, db.allowedTargetIds order actor request = .ok ids) ↔ (db.directory.isAllowed actor request.permission = true →
      ∀ id ∈ request.targetIds, WellFormed db.knowledge request.targetType id) := by
  have hdecided : (∃ ids, db.allowedTargetIds order actor request = .ok ids) ↔
      ∃ decisions, db.evaluateMany order actor request = .ok decisions := by
    constructor
    · rintro ⟨ids, h⟩
      obtain ⟨decisions, hdecisions, -⟩ := bind_eq_ok.mp h
      exact ⟨decisions, hdecisions⟩
    · rintro ⟨decisions, hdecisions⟩
      exact ⟨_, bind_eq_ok.mpr ⟨decisions, hdecisions, rfl⟩⟩
  rw [hdecided]
  constructor
  · rintro ⟨decisions, h⟩ hgranted
    exact wellFormed_of_evaluateMany hrefs hsupported hrows hgranted h
  · intro hformed
    cases hgranted : db.directory.isAllowed actor request.permission with
    | false =>
      obtain ⟨decisions, h, -⟩ := evaluateMany_denied order hsupported hgranted
      exact ⟨decisions, h⟩
    | true =>
      rcases evaluateMany_cases order hsupported hgranted (hformed hgranted) with
        ⟨decisions, h, -⟩ | ⟨id, hid, r, e, hr, hfail, -⟩
      · exact ⟨decisions, h⟩
      · rw [(assertTarget_ok hr hsupported).mpr (hfits id hid)] at hfail
        cases hfail

/-! A page, a note and a standard are targets of their own resources. -/

theorem fits_page : Fits kb .page id .pages := by
  rintro r (_ | _ | ⟨-, hline, -⟩)
  obtain ⟨a, tl, -, rfl⟩ := hline.chain.head
  exact ⟨pageTarget a, rfl, List.mem_singleton_self _⟩

theorem fits_note : Fits kb .note id .notes := by
  rintro r (_ | _ | _ | _ | _)
  · exact ⟨_, rfl, List.mem_singleton_self _⟩
  · exact ⟨_, rfl, List.mem_singleton_self _⟩

theorem fits_standard : Fits kb .standard id .standards := by
  rintro r (_ | _ | _ | _ | _ | _)
  exact ⟨_, rfl, List.mem_singleton_self _⟩

end AdWiki.Access
