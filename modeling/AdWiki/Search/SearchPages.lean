import AdWiki.Search.SearchHits

/-!
# Totals and pages of the global search

The total of a response is that of its first row, so a page behind the last hit reports 0, and each page is cut from a
sorting of its own.

* `search_pages_iff`: where the total is right and the pages together are the hits.
* `page_behind_last`: the second page of a search with one hit.
-/

namespace AdWiki.Search

open Access Wiki Fallible

variable {Rank : Type} {pg : Postgres Rank} {order : RowOrder} {store : SearchStore} {query : GlobalSearchQuery}
  {user : AuthenticatedUser}
  {now : Time} {access : SearchAccess} {sorting : Sorting pg} {hits : List (ResultRow Rank)}

/-! ## The order of the rows -/

/-- The higher rank comes first, then the later time, then the smaller title. -/
theorem ResultRow.le_iff {a b : ResultRow Rank} : a.le pg b = true ↔ pg.rankLe b.rank a.rank = true ∧
    (pg.rankLe a.rank b.rank = true → b.updatedAt < a.updatedAt ∨ a.updatedAt = b.updatedAt ∧
      pg.titleLe a.title b.title = true) := by
  have htotal := pg.rankLe_total a.rank b.rank
  unfold ResultRow.le
  by_cases hab : pg.rankLe a.rank b.rank = true <;> by_cases hba : pg.rankLe b.rank a.rank = true
  · simp only [hab, hba, Bool.and_self, if_true, true_and, forall_const]
    by_cases htime : a.updatedAt = b.updatedAt
    · simp [htime]
    · simp [htime]
  · simp [hab, hba]
  · simp [hab, hba]
  · exact absurd htotal (not_or.mpr ⟨hab, hba⟩)

theorem ResultRow.le_total (a b : ResultRow Rank) : a.le pg b = true ∨ b.le pg a = true := by
  rw [ResultRow.le_iff, ResultRow.le_iff]
  have hrank := pg.rankLe_total a.rank b.rank
  have htitle := pg.titleLe_total a.title b.title
  by_cases hab : pg.rankLe a.rank b.rank = true <;> by_cases hba : pg.rankLe b.rank a.rank = true
  · simp only [hab, hba, true_and, forall_const]
    rcases lt_trichotomy a.updatedAt b.updatedAt with hlt | heq | hgt
    · exact Or.inr (Or.inl hlt)
    · rcases htitle with htitle | htitle
      · exact Or.inl (Or.inr ⟨heq, htitle⟩)
      · exact Or.inr (Or.inr ⟨heq.symm, htitle⟩)
    · exact Or.inl (Or.inl hgt)
  · exact Or.inr ⟨hab, fun h => absurd h hba⟩
  · exact Or.inl ⟨hba, fun h => absurd h hab⟩
  · exact absurd hrank (not_or.mpr ⟨hab, hba⟩)

theorem ResultRow.le_trans (a b c : ResultRow Rank) (hab : a.le pg b = true) (hbc : b.le pg c = true) :
    a.le pg c = true := by
  rw [ResultRow.le_iff] at hab hbc ⊢
  obtain ⟨hba, hab⟩ := hab
  obtain ⟨hcb, hbc⟩ := hbc
  refine ⟨pg.rankLe_trans _ _ _ hcb hba, fun hac => ?_⟩
  -- all three ranks tie, and the later columns decide
  rcases hab (pg.rankLe_trans _ _ _ hac hcb) with hlater | ⟨hsame, htitle⟩
  · rcases hbc (pg.rankLe_trans _ _ _ hba hac) with hlater' | ⟨hsame', -⟩
    · exact Or.inl (hlater'.trans hlater)
    · exact Or.inl (hsame' ▸ hlater)
  · rcases hbc (pg.rankLe_trans _ _ _ hba hac) with hlater' | ⟨hsame', htitle'⟩
    · exact Or.inl (hsame ▸ hlater')
    · exact Or.inr ⟨hsame.trans hsame', pg.titleLe_trans _ _ _ htitle htitle'⟩

/-! ## One request -/

/-- The query for another page. -/
def GlobalSearchQuery.onPage (query : GlobalSearchQuery) (k : Nat) : GlobalSearchQuery :=
  { query with page := k + 1, page_pos := k.succ_pos }

/-- What a request answers. -/
theorem globalSearch_eq {results rows : List (ResultRow Rank)} (h : searchAccess order store query user = .ok access)
    (hresults : results = (branches pg store query.q now access query.types).flatten)
    (hrows : rows = Paging.page query.limit (query.page - 1) (sorting.sort results)) :
    globalSearch pg order store sorting now query user =
      .ok ⟨rows.map toResult, ⟨(rows.head?.map fun _ => results.length).getD 0, query.page, query.limit, query.q⟩⟩ := by
  have hunfold : globalSearch pg order store sorting now query user =
      if branches pg store query.q now access query.types = [] then .ok ⟨[], ⟨0, query.page, query.limit, query.q⟩⟩
      else .ok ⟨(rows.map fun row => (row, results.length)).map fun row => toResult row.1,
        ⟨((rows.map fun row => (row, results.length)).head?.map Prod.snd).getD 0, query.page, query.limit, query.q⟩⟩ := by
    rw [hrows, hresults, globalSearch, h]
    rfl
  rw [hunfold]
  by_cases hnone : branches pg store query.q now access query.types = []
  · have hempty : (sorting.sort results).length = 0 := by
      rw [(sorting.sorts results).perm.length_eq, hresults, hnone]
      rfl
    have hnil : rows = [] := by
      rw [hrows, List.eq_nil_of_length_eq_zero hempty]
      simp [Paging.page]
    rw [if_pos hnone, hnil]
    rfl
  · rw [if_neg hnone, List.map_map, List.head?_map, Option.map_map]
    rfl

theorem searchAccess_of_ok {response : GlobalSearchResponse}
    (h : globalSearch pg order store sorting now query user = .ok response) :
    ∃ access, searchAccess order store query user = .ok access := by
  obtain ⟨access, haccess, -⟩ := bind_eq_ok.mp h
  exact ⟨access, haccess⟩

/-- The hits that the user may see, in some order. -/
structure IsHits (pg : Postgres Rank) (order : RowOrder) (store : SearchStore) (query : GlobalSearchQuery)
    (user : AuthenticatedUser) (hits : List (ResultRow Rank)) : Prop where
  nodup : hits.Nodup
  mem : ∀ row, row ∈ hits ↔ MaySee pg order store query user row

theorem IsHits.perm (h : IsHits pg order store query user hits) (haccess : AccessOf order store query user access)
    (now : Time) :
    (branches pg store query.q now access query.types).flatten.Perm hits :=
  (List.perm_ext_iff_of_nodup (nodup_results.of_map _) h.nodup).mpr fun row => by rw [mem_results haccess now, h.mem]

/-- Hits are told apart by their type and id. -/
theorem IsHits.nodup_keys (h : IsHits pg order store query user hits) (haccess : AccessOf order store query user access) :
    (hits.map fun row => (row.type, row.id)).Nodup :=
  ((h.perm haccess 0).map _).nodup_iff.mp nodup_results

/-! ## All pages -/

/-- The data of the pages 1, …, n, each asked for on its own. -/
def searchPages (pg : Postgres Rank) (order : RowOrder) (store : SearchStore) (sortings : Nat → Sorting pg)
    (nows : Nat → Time)
    (query : GlobalSearchQuery) (user : AuthenticatedUser) (n : Nat) : Except HttpError (List GlobalSearchResult) := do
  let responses ← (List.range n).mapM fun k => globalSearch pg order store (sortings k) (nows k) (query.onPage k) user
  pure (responses.flatMap (·.data))

theorem mapM_ok {α β ε : Type} {f : α → Except ε β} {g : α → β} {l : List α} (h : ∀ a ∈ l, f a = .ok (g a)) :
    l.mapM f = .ok (l.map g) := by
  induction l with
  | nil => rfl
  | cons a l ih =>
    obtain ⟨ha, hrest⟩ := List.forall_mem_cons.mp h
    rw [List.mapM_cons, ha, ih hrest]
    rfl

theorem searchPages_eq (h : searchAccess order store query user = .ok access) (sortings : Nat → Sorting pg)
    (nows : Nat → Time) (n : Nat) :
    searchPages pg order store sortings nows query user n = .ok ((Paging.pages query.limit
      (fun k => (sortings k).sort (branches pg store query.q (nows k) access query.types).flatten) n).map toResult) := by
  have hpage : ∀ k, searchAccess order store (query.onPage k) user = .ok access := fun _ => h
  unfold searchPages
  rw [mapM_ok fun k _ => globalSearch_eq (hpage k) rfl rfl]
  show Except.ok _ = _
  rw [List.flatMap_map, Paging.pages, List.map_flatMap]
  rfl

/-- The total is right, and the pages list every hit once, whatever the order of rows that tie. -/
structure PagesAgree (pg : Postgres Rank) (order : RowOrder) (store : SearchStore) (query : GlobalSearchQuery)
    (user : AuthenticatedUser) (hits : List (ResultRow Rank)) : Prop where
  total : ∀ sorting now, ∃ response, globalSearch pg order store sorting now query user = .ok response ∧
    response.info.total = hits.length
  pages : ∀ sortings nows n, hits.length ≤ n * query.limit →
    ∃ data, searchPages pg order store sortings nows query user n = .ok data ∧ data.Perm (hits.map toResult)

/-- The total is that of the first row of the page. -/
theorem total_eq_iff {results rows : List (ResultRow Rank)} {k limit : Nat} (hlimit : 0 < limit)
    (hperm : results.Perm hits) (hrows : rows = Paging.page limit k (sorting.sort results)) :
    (rows.head?.map fun _ => results.length).getD 0 = hits.length ↔ hits = [] ∨ k * limit < hits.length := by
  have hlength : rows.length = min limit (hits.length - k * limit) := by
    rw [hrows, Paging.page, List.length_take, List.length_drop, (sorting.sorts results).perm.length_eq, hperm.length_eq]
  rw [← List.length_eq_zero_iff, ← hperm.length_eq] at *
  cases rows with
  | nil =>
    rw [List.length_nil] at hlength
    show 0 = results.length ↔ _
    omega
  | cons row rows =>
    rw [List.length_cons] at hlength
    show results.length = results.length ↔ _
    omega

/-- An order that returns a given sorting of the hits. -/
theorem exists_sorting (sorted : List (ResultRow Rank)) (h : Paging.SortOf (ResultRow.le pg) hits sorted) :
    ∃ sorting : Sorting pg, ∀ results, results.Perm hits → sorting.sort results = sorted := by
  classical
  refine ⟨⟨fun results => if results.Perm hits then sorted else results.mergeSort (ResultRow.le pg), fun results => ?_⟩,
    fun results hperm =>
    if_pos hperm⟩
  split
  · next hperm => exact ⟨h.perm.trans hperm.symm, h.sorted⟩
  · exact ⟨List.mergeSort_perm _ _,
      List.pairwise_mergeSort ResultRow.le_trans (fun a b => by simpa using ResultRow.le_total a b) results⟩

/-- Rows that are hits, and of which the results are those of the hits, are the hits. -/
theorem perm_of_results (hhits : IsHits pg order store query user hits) (haccess : AccessOf order store query user access)
    {rows : List (ResultRow Rank)} (hmem : ∀ row ∈ rows, row ∈ hits) (h : (rows.map toResult).Perm (hits.map toResult)) :
    rows.Perm hits := by
  have hkeys : (rows.map fun row => (row.type, row.id)).Perm (hits.map fun row => (row.type, row.id)) := by
    have hmap := h.map fun result => (result.type, result.id)
    rwa [List.map_map, List.map_map] at hmap
  have hnodup : rows.Nodup := (hkeys.nodup_iff.mpr (hhits.nodup_keys haccess)).of_map _
  have hlength := hkeys.length_eq
  rw [List.length_map, List.length_map] at hlength
  exact (List.subperm_of_subset hnodup hmem).perm_of_length_le hlength.ge

theorem search_pages_iff (pg : Postgres Rank) (order : RowOrder) (store : SearchStore) (query : GlobalSearchQuery)
    (user : AuthenticatedUser)
    (sorting : Sorting pg) (now : Time) (response : GlobalSearchResponse) (hits : List (ResultRow Rank))
    (hrefs : References store.db.knowledge) (hanswers : globalSearch pg order store sorting now query user = .ok response)
    (hhits : IsHits pg order store query user hits) :
    PagesAgree pg order store query user hits ↔
      (hits = [] ∨ (query.page - 1) * query.limit < hits.length) ∧
        ∀ k, Paging.Clean (ResultRow.le pg) hits (k * query.limit) := by
  obtain ⟨access, hread⟩ := searchAccess_of_ok hanswers
  have haccess := searchAccess_ok hrefs hread
  have hperm : ∀ now, (branches pg store query.q now access query.types).flatten.Perm hits := hhits.perm haccess
  constructor
  · rintro ⟨htotal, hpages⟩
    constructor
    · obtain ⟨response', hresponse, hcount⟩ := htotal sorting now
      rw [globalSearch_eq hread rfl rfl] at hresponse
      cases hresponse
      exact (total_eq_iff query.limit_pos (hperm now) rfl).mp hcount
    · refine (Paging.pages_perm_iff ResultRow.le_trans ResultRow.le_total hhits.nodup query.limit_pos).mp
        fun sorts hsorts n hn => ?_
      choose sortings hsortings using fun k => exists_sorting (sorts k) (hsorts k)
      obtain ⟨data, hdata, hall⟩ := hpages sortings (fun _ => now) n hn
      rw [searchPages_eq hread] at hdata
      have hsame : (fun k => (sortings k).sort (branches pg store query.q now access query.types).flatten) = sorts :=
        funext fun k => hsortings k _ (hperm now)
      rw [hsame] at hdata
      cases hdata
      refine perm_of_results hhits haccess (fun row hrow => ?_) hall
      obtain ⟨k, -, hrow⟩ := List.mem_flatMap.mp hrow
      exact (hsorts k).perm.mem_iff.mp (List.mem_of_mem_drop (List.mem_of_mem_take hrow))
  · rintro ⟨hpage, hclean⟩
    constructor
    · intro sorting now
      exact ⟨_, globalSearch_eq hread rfl rfl, (total_eq_iff query.limit_pos (hperm now) rfl).mpr hpage⟩
    · intro sortings nows n hn
      refine ⟨_, searchPages_eq hread sortings nows n, ?_⟩
      refine List.Perm.map _ ?_
      refine (Paging.pages_perm_iff ResultRow.le_trans ResultRow.le_total hhits.nodup query.limit_pos).mpr hclean _
        (fun k => ?_) n hn
      have hsort := (sortings k).sorts (branches pg store query.q (nows k) access query.types).flatten
      exact ⟨hsort.perm.trans (hperm (nows k)), hsort.sorted⟩

namespace SearchDemo

def containsText (part : List Char) : List Char → Bool
  | [] => part == []
  | c :: cs => part.isPrefixOf (c :: cs) || containsText part cs

/-- Texts as they are, and ranks that add up. -/
def postgres : Postgres ℚ where
  tsMatches text q := containsText q.toList text.toList
  tsRank text q := if containsText q.toList text.toList then 1 else 0
  ilike text pattern := containsText (pattern.toList.tail.dropLast) text.toList
  lower := id
  stripTags := id
  float8 := id
  add := (· + ·)
  rankLe a b := a ≤ b
  titleLe a b := a ≤ b
  rankLe_trans a b c hab hbc := by
    simp only [decide_eq_true_eq] at hab hbc ⊢
    exact Rat.le_trans hab hbc
  rankLe_total a b := by simpa using Rat.le_total
  titleLe_trans a b c hab hbc := by
    simp only [decide_eq_true_eq] at hab hbc ⊢
    exact String.le_trans hab hbc
  titleLe_total a b := by simpa using String.le_total a b

/-- PostgreSQL as it returns rows that tie in the order of the tables. -/
def stable : Sorting postgres where
  sort rows := rows.insertionSort fun a b => a.le postgres b = true
  sorts rows := by
    have htotal : Std.Total fun a b : ResultRow ℚ => a.le postgres b = true := ⟨ResultRow.le_total⟩
    have htrans : IsTrans (ResultRow ℚ) fun a b => a.le postgres b = true := ⟨ResultRow.le_trans⟩
    exact ⟨List.perm_insertionSort _ rows, List.pairwise_insertionSort _ rows⟩

def admin : AuthenticatedUser :=
  ⟨"admin", "admin@wiki", "admin", "Admin", "admin", "admin", true, none, some true, some .jwt, none, none⟩

def space : KnowledgeSpace := ⟨"space", "Handbook", .opened, [.wiki]⟩

def draft : Page :=
  ⟨"draft", "Draft", "draft", .page, "", none, .draft, false, true, 1, 0, none, none, "space", "admin", none, none⟩

def image : Media := ⟨"image", "plan.png", none, 1⟩

/-- An open space with a page that is not published yet, and these media and links to them. -/
def storeOf (media : Table Media.id) (pageMedia : Table PageMedia.key) : SearchStore where
  db :=
    { directory :=
        { roles := .empty
          users := .empty
          acls := .empty
          permissions := .empty
          providers := .empty
          roleMappings := .empty
          externalIdentities := .empty
          externalRoleGrants := .empty }
      knowledge :=
        { spaces := .single space
          categories := .empty
          pages := .single draft
          notes := .empty
          noteShares := .empty
          standards := .empty }
      groupMemberships := .empty
      resourceAclEntries := .empty
      resourceAclBoundaries := .empty }
  pageUpdatedAt _ := 0
  noteColumns _ := ⟨"", none, 0⟩
  standardColumns _ := ⟨"", "", 0⟩
  tags := .empty
  tagsOnPages := .empty
  tagsOnNotes := .empty
  media := media
  pageMedia := pageMedia

def ofPage (types : Option (List FilterType)) (page : Nat) (h : 0 < page) : GlobalSearchQuery :=
  ⟨"plan", types, page, 20, h, by decide, by decide⟩

/-- A medium that no page has. -/
def unlinked : SearchStore := storeOf (.single image) .empty

theorem references (media : Table Media.id) (pageMedia : Table PageMedia.key) :
    References (storeOf media pageMedia).db.knowledge where
  categorySpace category h := absurd h List.not_mem_nil
  pageSpace page h := by
    rw [List.mem_singleton.mp h]
    rfl
  pageCategory page h id hid := by
    rw [List.mem_singleton.mp h] at hid
    cases hid
  noteSpace note h := absurd h List.not_mem_nil
  noteCategory note h := absurd h List.not_mem_nil
  standardSpace standard h := absurd h List.not_mem_nil
  standardCategory standard h := absurd h List.not_mem_nil

end SearchDemo

/-- One hit, on a page that is asked for. -/
theorem search_pages_iff_image :
    PagesAgree SearchDemo.postgres .stored SearchDemo.unlinked (SearchDemo.ofPage none 1 (by decide)) SearchDemo.admin
        [mediaRow SearchDemo.postgres "plan" SearchDemo.image] ↔
      ([mediaRow SearchDemo.postgres "plan" SearchDemo.image] = [] ∨
        (1 - 1) * 20 < [mediaRow SearchDemo.postgres "plan" SearchDemo.image].length) ∧
        ∀ k, Paging.Clean (ResultRow.le SearchDemo.postgres) [mediaRow SearchDemo.postgres "plan" SearchDemo.image]
          (k * 20) := by
  have hread : searchAccess .stored SearchDemo.unlinked (SearchDemo.ofPage none 1 (by decide)) SearchDemo.admin =
      .ok ⟨true, true, true, true, [], [], []⟩ := by decide +kernel
  have haccess : AccessOf .stored SearchDemo.unlinked (SearchDemo.ofPage none 1 (by decide)) SearchDemo.admin
      ⟨true, true, true, true, [], [], []⟩ := searchAccess_ok (SearchDemo.references _ _) hread
  have hrows :
    (branches SearchDemo.postgres SearchDemo.unlinked "plan" 0 ⟨true, true, true, true, [], [], []⟩ none).flatten =
      [mediaRow SearchDemo.postgres "plan" SearchDemo.image] := by decide +kernel
  refine search_pages_iff SearchDemo.postgres .stored SearchDemo.unlinked (SearchDemo.ofPage none 1 (by decide))
    SearchDemo.admin
    SearchDemo.stable 0 _ _ (SearchDemo.references _ _) (globalSearch_eq hread rfl rfl)
    ⟨List.nodup_singleton _, fun row => ?_⟩
  rw [← hrows]
  exact mem_results haccess 0

/-- The second page of this search says that there is nothing. -/
theorem page_behind_last :
    globalSearch SearchDemo.postgres .stored SearchDemo.unlinked SearchDemo.stable 0
      (SearchDemo.ofPage none 1 (by decide)) SearchDemo.admin =
        .ok ⟨[⟨.media, "image", "plan.png", none, .filename, 1, "/media?media=image"⟩], ⟨1, 1, 20, "plan"⟩⟩ ∧
      globalSearch SearchDemo.postgres .stored SearchDemo.unlinked SearchDemo.stable 0
        (SearchDemo.ofPage none 2 (by decide)) SearchDemo.admin =
        .ok ⟨[], ⟨0, 2, 20, "plan"⟩⟩ := by
  constructor <;> decide +kernel

end AdWiki.Search
