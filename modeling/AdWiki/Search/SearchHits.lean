import AdWiki.Search.GlobalSearch
import Mathlib

/-!
# What the global search finds

* `MaySee`: the hits that a user may see, said of the tables and the access rules, and for media of the candidates of the
  search.
* `mem_results`: the rows that the query unites are these hits, each of them once (`nodup_results`).
-/

namespace AdWiki.Search

open Access Wiki Fallible

variable {Rank : Type}

section Spec

variable (pg : Postgres Rank) (order : RowOrder) (store : SearchStore) (query : GlobalSearchQuery)
  (user : AuthenticatedUser)

/-- The type is asked for, and the user may read entries of it at all. -/
def Permitted (type : FilterType) (resource : Resource) : Prop :=
  query.selects type = true ∧ store.db.directory.isAllowed user ⟨resource, .read⟩ = true

def MayRead (resource : Resource) (type : TargetType) (id : String) : Prop :=
  Allowed order store.db user ⟨resource, .read, type, id⟩

structure ReadsPage (page : Page) : Prop where
  row : page ∈ store.db.knowledge.pages
  published : page.status = .published
  type : page.type = .page
  live : page.deletedAt = none
  allowed : MayRead order store user .pages .page page.id

structure ReadsNote (note : Note) : Prop where
  row : note ∈ store.db.knowledge.notes
  candidate : isNoteCandidate store user note = true
  allowed : MayRead order store user .notes .note note.id

structure ReadsStandard (standard : Standard) : Prop where
  row : standard ∈ store.db.knowledge.standards
  allowed : MayRead order store user .standards .standard standard.id

/-- A page that the media of a search may be read through: it has to be a candidate of the search itself. -/
structure LeadsToMedia (page : Page) : Prop where
  row : page ∈ store.db.knowledge.pages
  candidate : isPageCandidate (canRead store query user .pages .pages) page = true
  allowed : MayRead order store user .pages .page page.id

def FindsMedia (media : Media) : Prop :=
  (∀ link ∈ store.pageMedia, link.mediaId ≠ media.id) ∨
    ∃ link ∈ store.pageMedia, link.mediaId = media.id ∧ ∃ page, LeadsToMedia order store query user page ∧
      page.id = link.pageId

/-- The times of the entries that the user may see and that have the tag. -/
def TagTimes (tag : Tag) : Set Time :=
  {time | (Permitted store query user .pages .pages ∧ ∃ page, ReadsPage order store user page ∧
      (∃ link ∈ store.tagsOnPages, link.tagId = tag.id ∧ link.pageId = page.id) ∧ time = store.pageUpdatedAt page.id) ∨
    (Permitted store query user .notes .notes ∧ ∃ note, ReadsNote order store user note ∧
      (∃ link ∈ store.tagsOnNotes, link.tagId = tag.id ∧ link.noteId = note.id) ∧
        time = (store.noteColumns note.id).updatedAt)}

inductive MaySee : ResultRow Rank → Prop
  | page {page : Page} (permitted : Permitted store query user .pages .pages) (reads : ReadsPage order store user page)
      (found : pageMatches pg store query.q page = true) : MaySee (pageRow pg store query.q page)
  | note {note : Note} (permitted : Permitted store query user .notes .notes) (reads : ReadsNote order store user note)
      (found : noteMatches pg store query.q note = true) : MaySee (noteRow pg store query.q note)
  | standard {standard : Standard} (permitted : Permitted store query user .standards .standards)
      (reads : ReadsStandard order store user standard) (found : standardMatches pg store query.q standard = true) :
      MaySee (standardRow pg store query.q standard)
  | media {media : Media} (permitted : Permitted store query user .media .media) (row : media ∈ store.media)
      (reads : FindsMedia order store query user media) (found : mediaMatches pg query.q media = true) :
      MaySee (mediaRow pg query.q media)
  | tag {tag : Tag} {time : Time} (all : query.types = none) (row : tag ∈ store.tags)
      (found : isLike pg query.q tag.name = true)
      (latest : IsGreatest (TagTimes order store query user tag) time) : MaySee (tagRowAt pg query.q tag time)

end Spec

variable {pg : Postgres Rank} {order : RowOrder} {store : SearchStore} {query : GlobalSearchQuery}
  {user : AuthenticatedUser} {now : Time}
  {access : SearchAccess} {row : ResultRow Rank}

/-! ## The visible ids -/

theorem hasPermission_eq (p : Permission) : hasPermission store user p = store.db.directory.isAllowed user p := by
  have hany : (fun permissions : List Permission => !permissions.any fun permission => permission == p) =
      fun allowlist => !allowlist.contains p := by
    funext permissions
    rw [List.any_beq']
  unfold hasPermission Directory.isAllowed verdict
  rw [hany]

theorem canRead_iff {type : FilterType} {resource : Resource} :
    canRead store query user type resource = true ↔ Permitted store query user type resource := by
  rw [canRead, Bool.and_eq_true, hasPermission_eq]
  rfl

/-- The access that the query is built from. -/
structure AccessOf (order : RowOrder) (store : SearchStore) (query : GlobalSearchQuery) (user : AuthenticatedUser)
    (access : SearchAccess) :
    Prop where
  canReadPages : access.canReadPages = canRead store query user .pages .pages
  canReadNotes : access.canReadNotes = canRead store query user .notes .notes
  canReadStandards : access.canReadStandards = canRead store query user .standards .standards
  canReadMedia : access.canReadMedia = canRead store query user .media .media
  pageIds : ∀ id, id ∈ access.allowedPageIds ↔ (access.canReadPages || access.canReadMedia) = true ∧
    ∃ page, LeadsToMedia order store query user page ∧ page.id = id
  noteIds : ∀ id, id ∈ access.allowedNoteIds ↔
    access.canReadNotes = true ∧ ∃ note, ReadsNote order store user note ∧ note.id = id
  standardIds : ∀ id, id ∈ access.allowedStandardIds ↔
    access.canReadStandards = true ∧ ∃ standard, ReadsStandard order store user standard ∧ standard.id = id

theorem mem_allowedIds {α : Type} {key : α → String} {t : Table key} {p : α → Bool} {asked : Bool} {resource : Resource}
    {type : TargetType}
    {ids : List String} (hrefs : References store.db.knowledge)
    (hsupported : isPermissionSupported ⟨resource, .read⟩ = true)
    (hrows : ∀ a ∈ t, HasRow store.db.knowledge type (key a))
    (h : allowedIds order store user resource type key (if asked then t.findMany order p else []) = .ok ids)
    (id : String) :
    id ∈ ids ↔ asked = true ∧ ∃ a, a ∈ t ∧ p a = true ∧ MayRead order store user resource type (key a) ∧ key a = id := by
  have hiff :
      id ∈ ids ↔ id ∈ (if asked then t.findMany order p else []).map key ∧ MayRead order store user resource type id :=
    mem_allowedTargetIds_iff order hrefs (by exact hsupported) (fun id hid => by
      obtain ⟨a, ha, rfl⟩ := List.mem_map.mp hid
      cases asked with
      | false => cases ha
      | true => exact hrows a (Table.mem_findMany.mp ha).1) h
  rw [hiff]
  cases asked with
  | false => simp
  | true =>
    simp only [if_true, List.mem_map, Table.mem_findMany, true_and]
    constructor
    · rintro ⟨⟨a, ⟨ha, hp⟩, rfl⟩, hread⟩
      exact ⟨a, ha, hp, hread, rfl⟩
    · rintro ⟨a, ha, hp, hread, rfl⟩
      exact ⟨⟨a, ⟨ha, hp⟩, rfl⟩, hread⟩

theorem searchAccess_ok (hrefs : References store.db.knowledge) (h : searchAccess order store query user = .ok access) :
    AccessOf order store query user access := by
  obtain ⟨pageIds, hpages, h⟩ := bind_eq_ok.mp h
  obtain ⟨noteIds, hnotes, h⟩ := bind_eq_ok.mp h
  obtain ⟨standardIds, hstandards, h⟩ := bind_eq_ok.mp h
  obtain rfl := pure_eq_ok.mp h
  have hpageRows : ∀ page ∈ store.db.knowledge.pages, HasRow store.db.knowledge .page page.id := fun page hpage =>
    Option.isSome_of_mem (Table.find_of_mem hpage)
  have hnoteRows : ∀ note ∈ store.db.knowledge.notes, HasRow store.db.knowledge .note note.id := fun note hnote =>
    Option.isSome_of_mem (Table.find_of_mem hnote)
  have hstandardRows : ∀ standard ∈ store.db.knowledge.standards, HasRow store.db.knowledge .standard standard.id :=
    fun standard hstandard => Option.isSome_of_mem (Table.find_of_mem hstandard)
  refine ⟨rfl, rfl, rfl, rfl, fun id => ?_, fun id => ?_, fun id => ?_⟩
  · rw [mem_allowedIds hrefs (by decide) hpageRows hpages]
    refine and_congr_right fun _ => exists_congr fun page => ?_
    exact ⟨fun ⟨hmem, hcandidate, hread, hid⟩ => ⟨⟨hmem, hcandidate, hread⟩, hid⟩, fun ⟨hpage, hid⟩ =>
      ⟨hpage.row, hpage.candidate, hpage.allowed, hid⟩⟩
  · rw [mem_allowedIds hrefs (by decide) hnoteRows hnotes]
    refine and_congr_right fun _ => exists_congr fun note => ?_
    exact ⟨fun ⟨hmem, hcandidate, hread, hid⟩ => ⟨⟨hmem, hcandidate, hread⟩, hid⟩, fun ⟨hnote, hid⟩ =>
      ⟨hnote.row, hnote.candidate, hnote.allowed, hid⟩⟩
  · rw [mem_allowedIds hrefs (by decide) hstandardRows hstandards]
    refine and_congr_right fun _ => exists_congr fun standard => ?_
    exact ⟨fun ⟨hmem, _, hread, hid⟩ => ⟨⟨hmem, hread⟩, hid⟩, fun ⟨hstandard, hid⟩ =>
      ⟨hstandard.row, rfl, hstandard.allowed, hid⟩⟩

/-! ## The branches -/

theorem mem_filter_rows {α κ : Type} {key : α → κ} {t : Table key} {p : α → Bool} {f : α → ResultRow Rank} :
    row ∈ (t.rows.filter p).map f ↔ ∃ a ∈ t, p a = true ∧ f a = row := by
  simp only [List.mem_map, List.mem_filter, and_assoc]
  rfl

theorem isVisiblePage_iff (haccess : AccessOf order store query user access) (hpages : access.canReadPages = true)
    {page : Page} :
    page ∈ store.db.knowledge.pages ∧ isVisiblePage access page = true ↔ ReadsPage order store user page := by
  unfold isVisiblePage
  simp only [Bool.and_eq_true, beq_iff_eq, List.contains_iff_mem, Option.isNone_iff_eq_none, haccess.pageIds, hpages,
    Bool.true_or, true_and]
  constructor
  · rintro ⟨hmem, ⟨⟨hpublished, htype⟩, hlive⟩, page', hleads, hid⟩
    obtain rfl := Rows.eq_of_key store.db.knowledge.pages.unique hleads.row hmem hid
    exact ⟨hmem, hpublished, htype, hlive, hleads.allowed⟩
  · intro hreads
    refine ⟨hreads.row, ⟨⟨hreads.published, hreads.type⟩, hreads.live⟩, page, ⟨hreads.row, ?_, hreads.allowed⟩, rfl⟩
    simp [isPageCandidate, hreads.live, hreads.type, hreads.published]

theorem isVisibleNote_iff (haccess : AccessOf order store query user access) (hnotes : access.canReadNotes = true)
    {note : Note} :
    note ∈ store.db.knowledge.notes ∧ isVisibleNote store access note = true ↔ ReadsNote order store user note := by
  unfold isVisibleNote
  simp only [Bool.and_eq_true, List.contains_iff_mem, Option.isNone_iff_eq_none, haccess.noteIds, hnotes, true_and]
  constructor
  · rintro ⟨hmem, -, note', hreads, hid⟩
    obtain rfl := Rows.eq_of_key store.db.knowledge.notes.unique hreads.row hmem hid
    exact hreads
  · intro hreads
    have hcandidate := hreads.candidate
    unfold isNoteCandidate at hcandidate
    rw [Bool.and_eq_true] at hcandidate
    exact ⟨hreads.row, Option.isNone_iff_eq_none.mp hcandidate.1, note, hreads, rfl⟩

theorem searchesPages_of_reads (haccess : AccessOf order store query user access)
    (hpages : access.canReadPages = true) {page : Page}
    (hreads : ReadsPage order store user page) : searchesPages access = true := by
  have hvisible := ((isVisiblePage_iff haccess hpages).mpr hreads).2
  unfold isVisiblePage at hvisible
  have hmem : page.id ∈ access.allowedPageIds := List.contains_iff_mem.mp (Bool.and_eq_true_iff.mp hvisible).2
  simp [searchesPages, hpages, List.length_pos_of_mem hmem]

theorem searchesNotes_of_reads (haccess : AccessOf order store query user access)
    (hnotes : access.canReadNotes = true) {note : Note}
    (hreads : ReadsNote order store user note) : searchesNotes access = true := by
  have hvisible := ((isVisibleNote_iff haccess hnotes).mpr hreads).2
  unfold isVisibleNote at hvisible
  have hmem : note.id ∈ access.allowedNoteIds := List.contains_iff_mem.mp (Bool.and_eq_true_iff.mp hvisible).2
  simp [searchesNotes, hnotes, List.length_pos_of_mem hmem]

theorem mem_pageBranch (haccess : AccessOf order store query user access) :
    (searchesPages access = true ∧ row ∈ pageBranch pg store query.q access) ↔
      Permitted store query user .pages .pages ∧ ∃ page, ReadsPage order store user page ∧
        pageMatches pg store query.q page = true ∧ pageRow pg store query.q page = row := by
  rw [← canRead_iff, ← haccess.canReadPages, pageBranch, mem_filter_rows]
  constructor
  · rintro ⟨hsearches, page, hmem, hvisible, rfl⟩
    obtain ⟨hpages, -⟩ := Bool.and_eq_true_iff.mp hsearches
    obtain ⟨hvisible, hfound⟩ := Bool.and_eq_true_iff.mp hvisible
    exact ⟨hpages, page, (isVisiblePage_iff haccess hpages).mp ⟨hmem, hvisible⟩, hfound, rfl⟩
  · rintro ⟨hpages, page, hreads, hfound, rfl⟩
    obtain ⟨hmem, hvisible⟩ := (isVisiblePage_iff haccess hpages).mpr hreads
    exact ⟨searchesPages_of_reads haccess hpages hreads, page, hmem, Bool.and_eq_true_iff.mpr ⟨hvisible, hfound⟩, rfl⟩

theorem mem_noteBranch (haccess : AccessOf order store query user access) :
    (searchesNotes access = true ∧ row ∈ noteBranch pg store query.q access) ↔
      Permitted store query user .notes .notes ∧ ∃ note, ReadsNote order store user note ∧
        noteMatches pg store query.q note = true ∧ noteRow pg store query.q note = row := by
  rw [← canRead_iff, ← haccess.canReadNotes, noteBranch, mem_filter_rows]
  constructor
  · rintro ⟨hsearches, note, hmem, hvisible, rfl⟩
    obtain ⟨hnotes, -⟩ := Bool.and_eq_true_iff.mp hsearches
    obtain ⟨hvisible, hfound⟩ := Bool.and_eq_true_iff.mp hvisible
    exact ⟨hnotes, note, (isVisibleNote_iff haccess hnotes).mp ⟨hmem, hvisible⟩, hfound, rfl⟩
  · rintro ⟨hnotes, note, hreads, hfound, rfl⟩
    obtain ⟨hmem, hvisible⟩ := (isVisibleNote_iff haccess hnotes).mpr hreads
    exact ⟨searchesNotes_of_reads haccess hnotes hreads, note, hmem, Bool.and_eq_true_iff.mpr ⟨hvisible, hfound⟩, rfl⟩

theorem mem_standardBranch (haccess : AccessOf order store query user access) :
    ((access.canReadStandards && access.allowedStandardIds.length > 0) = true ∧
      row ∈ standardBranch pg store query.q access) ↔
      Permitted store query user .standards .standards ∧ ∃ standard, ReadsStandard order store user standard ∧
        standardMatches pg store query.q standard = true ∧ standardRow pg store query.q standard = row := by
  rw [← canRead_iff, ← haccess.canReadStandards, standardBranch, mem_filter_rows]
  simp only [Bool.and_eq_true, decide_eq_true_eq, List.contains_iff_mem]
  constructor
  · rintro ⟨⟨hstandards, -⟩, standard, hmem, ⟨hallowed, hfound⟩, rfl⟩
    obtain ⟨-, standard', hreads, hid⟩ := (haccess.standardIds _).mp hallowed
    obtain rfl := Rows.eq_of_key store.db.knowledge.standards.unique hreads.row hmem hid
    exact ⟨hstandards, standard', hreads, hfound, rfl⟩
  · rintro ⟨hstandards, standard, hreads, hfound, rfl⟩
    have hallowed := (haccess.standardIds standard.id).mpr ⟨hstandards, standard, hreads, rfl⟩
    exact ⟨⟨hstandards, List.length_pos_of_mem hallowed⟩, standard, hreads.row, ⟨hallowed, hfound⟩, rfl⟩

theorem linkedMediaVisibility_iff (haccess : AccessOf order store query user access) (hmedia : access.canReadMedia = true)
    {media : Media} :
    linkedMediaVisibility store access media = true ↔ FindsMedia order store query user media := by
  unfold linkedMediaVisibility FindsMedia
  rw [Bool.or_eq_true, Bool.not_eq_true']
  refine or_congr ?_ ?_
  · simp only [List.any_eq_false, beq_iff_eq]
    rfl
  · simp only [List.any_eq_true, Bool.and_eq_true, beq_iff_eq, List.contains_iff_mem, haccess.pageIds, hmedia,
      Bool.or_true, true_and]
    rfl

theorem mem_mediaBranch (haccess : AccessOf order store query user access) :
    (access.canReadMedia = true ∧ row ∈ mediaBranch pg store query.q access) ↔
      Permitted store query user .media .media ∧ ∃ media ∈ store.media, FindsMedia order store query user media ∧
        mediaMatches pg query.q media = true ∧ mediaRow pg query.q media = row := by
  rw [← canRead_iff, ← haccess.canReadMedia, mediaBranch, mem_filter_rows]
  refine and_congr_right fun hmedia => exists_congr fun media => and_congr_right fun _ => ?_
  rw [Bool.and_eq_true, linkedMediaVisibility_iff haccess hmedia, and_assoc]

/-! ## Tags -/

theorem mem_taggedPages (haccess : AccessOf order store query user access) (hpages : access.canReadPages = true)
    {tag : Tag} {page : Page} :
    page ∈ taggedPages store access tag ↔ ReadsPage order store user page ∧
      ∃ link ∈ store.tagsOnPages, link.tagId = tag.id ∧ link.pageId = page.id := by
  rw [taggedPages, List.mem_filter, Bool.and_eq_true, ← and_assoc, ← isVisiblePage_iff haccess hpages]
  simp only [List.any_eq_true, Bool.and_eq_true, beq_iff_eq]
  rfl

theorem mem_taggedNotes (haccess : AccessOf order store query user access) (hnotes : access.canReadNotes = true)
    {tag : Tag} {note : Note} :
    note ∈ taggedNotes store access tag ↔ ReadsNote order store user note ∧
      ∃ link ∈ store.tagsOnNotes, link.tagId = tag.id ∧ link.noteId = note.id := by
  rw [taggedNotes, List.mem_filter, Bool.and_eq_true, ← and_assoc, ← isVisibleNote_iff haccess hnotes]
  simp only [List.any_eq_true, Bool.and_eq_true, beq_iff_eq]
  rfl

/-- All times that go into the timestamp of a tag. -/
def tagTimes (store : SearchStore) (access : SearchAccess) (tag : Tag) : List Time :=
  (if searchesPages access then (taggedPages store access tag).map fun page => store.pageUpdatedAt page.id else []) ++
    if searchesNotes access then
      (taggedNotes store access tag).map fun note => (store.noteColumns note.id).updatedAt else []

theorem mem_tagTimes (haccess : AccessOf order store query user access) {tag : Tag} {time : Time} :
    time ∈ tagTimes store access tag ↔ time ∈ TagTimes order store query user tag := by
  have hpages :
    (∃ page, (searchesPages access = true ∧ page ∈ taggedPages store access tag) ∧ store.pageUpdatedAt page.id = time) ↔
      Permitted store query user .pages .pages ∧ ∃ page, ReadsPage order store user page ∧
        (∃ link ∈ store.tagsOnPages, link.tagId = tag.id ∧ link.pageId = page.id) ∧
          time = store.pageUpdatedAt page.id := by
    rw [← canRead_iff, ← haccess.canReadPages]
    constructor
    · rintro ⟨page, ⟨hsearches, hpage⟩, rfl⟩
      have hcan := (Bool.and_eq_true_iff.mp hsearches).1
      obtain ⟨hreads, hlink⟩ := (mem_taggedPages haccess hcan).mp hpage
      exact ⟨hcan, page, hreads, hlink, rfl⟩
    · rintro ⟨hcan, page, hreads, hlink, rfl⟩
      exact ⟨page, ⟨searchesPages_of_reads haccess hcan hreads, (mem_taggedPages haccess hcan).mpr ⟨hreads, hlink⟩⟩, rfl⟩
  have hnotes : (∃ note, (searchesNotes access = true ∧ note ∈ taggedNotes store access tag) ∧
      (store.noteColumns note.id).updatedAt = time) ↔
      Permitted store query user .notes .notes ∧ ∃ note, ReadsNote order store user note ∧
        (∃ link ∈ store.tagsOnNotes, link.tagId = tag.id ∧ link.noteId = note.id) ∧
          time = (store.noteColumns note.id).updatedAt := by
    rw [← canRead_iff, ← haccess.canReadNotes]
    constructor
    · rintro ⟨note, ⟨hsearches, hnote⟩, rfl⟩
      have hcan := (Bool.and_eq_true_iff.mp hsearches).1
      obtain ⟨hreads, hlink⟩ := (mem_taggedNotes haccess hcan).mp hnote
      exact ⟨hcan, note, hreads, hlink, rfl⟩
    · rintro ⟨hcan, note, hreads, hlink, rfl⟩
      exact ⟨note, ⟨searchesNotes_of_reads haccess hcan hreads, (mem_taggedNotes haccess hcan).mpr ⟨hreads, hlink⟩⟩, rfl⟩
  rw [TagTimes, Set.mem_ofPred_eq, ← hpages, ← hnotes, tagTimes, List.mem_append]
  refine or_congr ?_ ?_
  · split <;> simp_all
  · split <;> simp_all

/-- A tag is visible where there are times, and its timestamp is the latest. -/
theorem tagVisibility_iff {tag : Tag} : (tagVisibility store access tag).any id = true ↔
    tagTimes store access tag ≠ [] := by
  unfold tagVisibility tagTimes
  split <;> split <;> simp [Classical.or_iff_not_imp_left]

/-- The greatest of the maxima. -/
theorem greatest_max? (lists : List (List Time)) : greatest (lists.map List.max?) = lists.flatten.max? := by
  refine Option.ext fun time => ?_
  rw [greatest, List.max?_eq_some_iff, List.max?_eq_some_iff]
  simp only [List.mem_filterMap, List.mem_map, List.mem_flatten, id_eq, exists_eq_right]
  constructor
  · rintro ⟨⟨list, hlist, hmax⟩, hall⟩
    refine ⟨⟨list, hlist, (List.max?_eq_some_iff.mp hmax).1⟩, ?_⟩
    rintro later ⟨other, hother, hlater⟩
    obtain ⟨top, htop⟩ : ∃ top, other.max? = some top := Option.isSome_iff_exists.mp (List.isSome_max?_of_mem hlater)
    exact ((List.max?_eq_some_iff.mp htop).2 later hlater).trans (hall top ⟨other, hother, htop⟩)
  · rintro ⟨⟨list, hlist, hmem⟩, hall⟩
    refine ⟨⟨list, hlist, List.max?_eq_some_iff.mpr ⟨hmem, fun later hlater => hall later ⟨list, hlist, hlater⟩⟩⟩, ?_⟩
    rintro top ⟨other, hother, htop⟩
    exact hall top ⟨other, hother, (List.max?_eq_some_iff.mp htop).1⟩

theorem greatest_tagTimestamps {tag : Tag} :
    greatest (tagTimestamps store access tag) = (tagTimes store access tag).max? := by
  have hlists : tagTimestamps store access tag =
      ((if searchesPages access then
        [(taggedPages store access tag).map fun page => store.pageUpdatedAt page.id] else []) ++
        if searchesNotes access then
          [(taggedNotes store access tag).map fun note => (store.noteColumns note.id).updatedAt] else []).map
          List.max? := by
    unfold tagTimestamps
    split <;> split <;> rfl
  rw [hlists, greatest_max?, tagTimes]
  split <;> split <;> simp

theorem mem_tagBranch (haccess : AccessOf order store query user access) :
    row ∈ tagBranch pg store query.q now access ↔ ∃ tag ∈ store.tags, isLike pg query.q tag.name = true ∧
      ∃ time, IsGreatest (TagTimes order store query user tag) time ∧ tagRowAt pg query.q tag time = row := by
  rw [tagBranch, mem_filter_rows]
  refine exists_congr fun tag => and_congr_right fun _ => ?_
  rw [Bool.and_eq_true, and_assoc, tagVisibility_iff, tagRow, greatest_tagTimestamps]
  refine and_congr_right fun _ => ?_
  have hgreatest : ∀ time, (tagTimes store access tag).max? = some time ↔
      IsGreatest (TagTimes order store query user tag) time := by
    intro time
    rw [List.max?_eq_some_iff, mem_tagTimes haccess]
    refine and_congr_right fun _ =>
      ⟨fun hall later hlater => hall later ((mem_tagTimes haccess).mpr hlater), fun hall later hlater =>
      hall ((mem_tagTimes haccess).mp hlater)⟩
  constructor
  · rintro ⟨hne, rfl⟩
    obtain ⟨time, htime⟩ : ∃ time, (tagTimes store access tag).max? = some time := by
      rw [← Option.ne_none_iff_exists', Ne, List.max?_eq_none_iff]
      exact hne
    exact ⟨time, (hgreatest time).mp htime, by rw [htime, Option.getD_some]⟩
  · rintro ⟨time, hlatest, rfl⟩
    have htime := (hgreatest time).mpr hlatest
    refine ⟨fun hnil => ?_, by rw [htime, Option.getD_some]⟩
    rw [hnil] at htime
    cases htime

/-! ## The hits -/

theorem mem_results (haccess : AccessOf order store query user access) (now : Time) :
    row ∈ (branches pg store query.q now access query.types).flatten ↔ MaySee pg order store query user row := by
  have hbranch : ∀ (c : Bool) (branch : List (ResultRow Rank)),
      row ∈ (if c = true then [branch] else []).flatten ↔ c = true ∧ row ∈ branch := by
    intro c branch
    cases c <;> simp
  unfold branches
  simp only [List.flatten_append, List.mem_append, hbranch, mem_pageBranch haccess, mem_noteBranch haccess,
    mem_standardBranch haccess, mem_mediaBranch haccess, mem_tagBranch haccess]
  constructor
  · rintro ((((⟨hpermitted, page, hreads, hfound, rfl⟩ | ⟨hpermitted, note, hreads, hfound, rfl⟩) |
      ⟨hpermitted, standard, hreads, hfound, rfl⟩) | ⟨hpermitted, media, hmem, hreads, hfound, rfl⟩) |
      ⟨hall, tag, hmem, hlike, time, hlatest, rfl⟩)
    · exact .page hpermitted hreads hfound
    · exact .note hpermitted hreads hfound
    · exact .standard hpermitted hreads hfound
    · exact .media hpermitted hmem hreads hfound
    · simp only [Bool.and_eq_true, Option.isNone_iff_eq_none] at hall
      exact .tag hall.1.1 hmem hlike hlatest
  · rintro (⟨hpermitted, hreads, hfound⟩ | ⟨hpermitted, hreads, hfound⟩ | ⟨hpermitted, hreads, hfound⟩ |
      ⟨hpermitted, hmem, hreads, hfound⟩ | ⟨hall, hmem, hlike, hlatest⟩)
    · exact Or.inl (Or.inl (Or.inl (Or.inl ⟨hpermitted, _, hreads, hfound, rfl⟩)))
    · exact Or.inl (Or.inl (Or.inl (Or.inr ⟨hpermitted, _, hreads, hfound, rfl⟩)))
    · exact Or.inl (Or.inl (Or.inr ⟨hpermitted, _, hreads, hfound, rfl⟩))
    · exact Or.inl (Or.inr ⟨hpermitted, _, hmem, hreads, hfound, rfl⟩)
    · refine Or.inr ⟨?_, _, hmem, hlike, _, hlatest, rfl⟩
      -- the entry with the latest time is one of a kind that is searched
      rcases hlatest.1 with ⟨hpermitted, page, hreads, -, -⟩ | ⟨hpermitted, note, hreads, -, -⟩
      · have hcan : access.canReadPages = true := haccess.canReadPages.trans (canRead_iff.mpr hpermitted)
        simp [hall, hcan, searchesPages_of_reads haccess hcan hreads]
      · have hcan : access.canReadNotes = true := haccess.canReadNotes.trans (canRead_iff.mpr hpermitted)
        simp [hall, hcan, searchesNotes_of_reads haccess hcan hreads]

/-- Rows of some types, none of them twice. -/
structure Typed (types : List ResultType) (rows : List (ResultRow Rank)) : Prop where
  nodup : (rows.map fun row => (row.type, row.id)).Nodup
  types : ∀ row ∈ rows, row.type ∈ types

theorem Typed.append {types : List ResultType} {type : ResultType} {rows rows' : List (ResultRow Rank)}
    (h : Typed types rows) (h' : Typed [type] rows') (hnew : type ∉ types) : Typed (type :: types) (rows ++ rows') where
  nodup := by
    rw [List.map_append, List.nodup_append']
    refine ⟨h.nodup, h'.nodup, fun pair hpair hpair' => ?_⟩
    obtain ⟨row, hrow, rfl⟩ := List.mem_map.mp hpair
    obtain ⟨row', hrow', heq⟩ := List.mem_map.mp hpair'
    have htype := List.mem_singleton.mp (h'.types row' hrow')
    rw [(Prod.mk.inj heq).1] at htype
    exact hnew (htype ▸ h.types row hrow)
  types row hrow := by
    rcases List.mem_append.mp hrow with hrow | hrow
    · exact List.mem_cons_of_mem _ (h.types row hrow)
    · exact List.mem_singleton.mp (h'.types row hrow) ▸ List.mem_cons_self

theorem typed_nil {types : List ResultType} : Typed types ([] : List (ResultRow Rank)) :=
  ⟨List.nodup_nil, fun _ h => absurd h List.not_mem_nil⟩

theorem typed_rows {α : Type} {key : α → String} {t : Table key} {p : α → Bool} {f : α → ResultRow Rank}
    {type : ResultType} (htype : ∀ a, (f a).type = type) (hid : ∀ a, (f a).id = key a) (asked : Bool) :
    Typed [type] (if asked then [(t.rows.filter p).map f] else []).flatten := by
  cases asked with
  | false => exact typed_nil
  | true =>
    rw [if_pos rfl, List.flatten_singleton]
    refine ⟨?_, fun row hrow => ?_⟩
    · have hunique := t.unique.sublist (List.Sublist.map key (List.filter_sublist (p := p)))
      rw [List.map_map]
      rw [List.Nodup, List.pairwise_map] at hunique ⊢
      refine hunique.imp fun {a b} hne heq => hne ?_
      have hids := (Prod.mk.inj heq).2
      rwa [hid a, hid b] at hids
    · obtain ⟨a, -, rfl⟩ := List.mem_map.mp hrow
      exact List.mem_singleton.mpr (htype a)

/-- No row comes from two branches or twice from one. -/
theorem nodup_results :
    ((branches pg store query.q now access query.types).flatten.map fun row => (row.type, row.id)).Nodup := by
  have hpages := typed_rows (f := pageRow pg store query.q) (fun _ => rfl) (fun _ => rfl) (t := store.db.knowledge.pages)
    (p := fun page => isVisiblePage access page && pageMatches pg store query.q page) (searchesPages access)
  have hnotes := typed_rows (f := noteRow pg store query.q) (fun _ => rfl) (fun _ => rfl) (t := store.db.knowledge.notes)
    (p := fun note => isVisibleNote store access note && noteMatches pg store query.q note) (searchesNotes access)
  have hstandards :=
    typed_rows (f := standardRow pg store query.q) (fun _ => rfl) (fun _ => rfl) (t := store.db.knowledge.standards)
    (p := fun standard => access.allowedStandardIds.contains standard.id && standardMatches pg store query.q standard)
    (access.canReadStandards && access.allowedStandardIds.length > 0)
  have hmedia := typed_rows (f := mediaRow pg query.q) (fun _ => rfl) (fun _ => rfl) (t := store.media)
    (p := fun media => linkedMediaVisibility store access media && mediaMatches pg query.q media) access.canReadMedia
  have htags := typed_rows (f := tagRow pg store query.q now access) (fun _ => rfl) (fun _ => rfl) (t := store.tags)
    (p := fun tag => isLike pg query.q tag.name && (tagVisibility store access tag).any id)
    (query.types.isNone && (access.canReadPages || access.canReadNotes) && (searchesPages access || searchesNotes access))
  have hall :=
    (((hpages.append hnotes (by decide)).append hstandards (by decide)).append hmedia (by decide)).append
      htags (by decide)
  unfold branches
  simp only [List.flatten_append]
  exact hall.nodup

end AdWiki.Search
