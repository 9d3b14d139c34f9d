import AdWiki.Access.Readable
import AdWiki.Knowledge.StandardsEvaluation
import AdWiki.Knowledge.TagRanking

/-!
# Suggestions of tags and what they tell

`KnowledgeIntelligenceService.suggestTags` compares a text with the documents of one kind that the actor may read. Pages
and notes have tags of their own. The tags of a standard are those of the pages it is linked to, and nothing asks whether
the actor may read these pages.

* `taggedRows_ok`: the rows of a kind that are compared.
* `suggestTags_agrees`: two states with the same readable rows (`Agrees`) lead to the same suggestions, as long as the
  linked pages are readable (`LinkedReadable`).
* `suggestions_blind_iff`: the condition is exact.
-/

namespace AdWiki.Knowledge.TagSuggestions

open Access Fallible

inductive NoteStatus
  | captured
  | promoted
  | archived
  deriving DecidableEq, Repr

/-- The columns of a note that the access rules do not read. -/
structure NoteColumns where
  status : NoteStatus
  content : String
  mcpVisible : Bool
  deletedAt : Option Time
  updatedAt : Time
  deriving DecidableEq, Repr

/-- The tables; the further columns of a row, and the names of its tags, are found by its id. -/
structure SuggestionStore where
  db : Database
  pageUpdatedAt : String → Time
  pageTags : String → List String
  noteColumns : String → NoteColumns
  noteTags : String → List String
  standardColumns : String → StandardColumns
  standardDescription : String → String
  standardPages : Table Wiki.StandardPageLink.key
  references : References db.knowledge

structure McpSuggestTagsInput where
  title : Option String
  content : String
  type : Wiki.KnowledgeKind
  limit : Nat
  deriving DecidableEq, Repr

/-- `KIND_SCOPE` -/
def kindScope : Wiki.KnowledgeKind → String
  | .wiki => "pages:read"
  | .note => "notes:read"
  | .standard => "standards:read"

section Service

variable (order : RowOrder) (context : KnowledgeAccessContext) (now : Time) (st : SuggestionStore)

def isVisiblePage (page : Wiki.Page) : Bool :=
  page.type == .page && page.status == .published && page.mcpVisible && page.deletedAt.isNone

/-- The note is shared with the user. -/
def isShared (noteId : String) : Bool :=
  st.db.knowledge.noteShares.rows.any fun share => share.noteId == noteId && share.userId == context.userId

def isVisibleNote (note : Wiki.Note) : Bool :=
  let columns := st.noteColumns note.id
  columns.status != .archived && columns.mcpVisible && columns.deletedAt.isNone &&
    (note.spaceId.isNone && (note.ownerId == context.userId || isShared context st note.id) || note.spaceId.isSome)

def isVisibleStandard (standard : Wiki.Standard) : Bool :=
  let columns := st.standardColumns standard.id
  columns.status == .active && columns.mcpVisible && columns.validFrom.all (· ≤ now) && columns.validUntil.all (now ≤ ·)

def aclIds (resource : Resource) (targetType : TargetType) (targetIds : List String) : Except HttpError (List String) :=
  match context.actor with
  | none => .ok []
  | some actor => st.db.allowedTargetIds order actor ⟨resource, .read, targetType, targetIds⟩

/-- The three queries of `taggedDocuments` for a kind. -/
def taggedRows {α : Type} {key : α → String} (table : Table key) (base : α → Bool) (resource : Resource)
    (targetType : TargetType)
    (updatedAt : α → Time) (document : α → TaggedDocument) : Except HttpError (List TaggedDocument) := do
  let candidates := table.findMany order base
  let allowedIds ← aclIds order context st resource targetType (candidates.map key)
  let rows := (table.findMany order fun row => base row && allowedIds.contains (key row)).insertionSort fun a b =>
    updatedAt b ≤ updatedAt a
  pure ((rows.take 200).map document)

def pageDocument (page : Wiki.Page) : TaggedDocument :=
  ⟨page.title ++ " " ++ page.content, order.apply (st.pageTags page.id)⟩

def noteDocument (note : Wiki.Note) : TaggedDocument :=
  ⟨note.title.getD "" ++ " " ++ (st.noteColumns note.id).content, order.apply (st.noteTags note.id)⟩

def standardDocument (standard : Wiki.Standard) : TaggedDocument where
  text := standard.title ++ " " ++ st.standardDescription standard.id
  tags := Js.distinct <| (st.standardPages.findMany order fun link => link.standardId == standard.id).flatMap fun link =>
    order.apply (st.pageTags link.pageId)

def taggedDocuments (type : Wiki.KnowledgeKind) : Except HttpError (List TaggedDocument) :=
  match type with
  | .wiki =>
    taggedRows order context st st.db.knowledge.pages isVisiblePage .pages .page (fun page => st.pageUpdatedAt page.id)
      (pageDocument order st)
  | .note => taggedRows order context st st.db.knowledge.notes (isVisibleNote context st) .notes .note
      (fun note => (st.noteColumns note.id).updatedAt) (noteDocument order st)
  | .standard => taggedRows order context st st.db.knowledge.standards (isVisibleStandard now st) .standards .standard
      (fun standard => (st.standardColumns standard.id).updatedAt) (standardDocument order st)

def suggestTags (lang : Language) (provider : Option Provider) (input : McpSuggestTagsInput) :
    Except HttpError McpSuggestTagsOutput := do
  throwIf (¬context.scopes.contains (kindScope input.type))
    (.forbidden "Für diese Wissensvorschläge fehlt die Leseberechtigung.")
  let documents ← taggedDocuments order context now st input.type
  pure (suggest lang provider input.title input.content input.limit documents)

/-! ## What the actor may read -/

def canRead (resource : Resource) (targetType : TargetType) (id : String) : Bool :=
  context.actor.any fun actor =>
    (st.db.evaluate order actor ⟨resource, .read, targetType, id⟩).toOption.any ResourceAccessDecision.allowed

/-- The rows of a table that the actor may read, as they are stored. -/
def readable {α : Type} {key : α → String} (table : Table key) (resource : Resource) (targetType : TargetType) : List α :=
  table.rows.filter fun row => canRead order context st resource targetType (key row)

/-- The 200 rows of a kind that were updated last, of those that the actor may read. -/
def compared {α : Type} {key : α → String} (table : Table key) (base : α → Bool) (resource : Resource)
    (targetType : TargetType) (updatedAt : α → Time) : List α :=
  ((order.apply ((readable order context st table resource targetType).filter base)).insertionSort fun a b =>
    updatedAt b ≤ updatedAt a).take 200

/-- The standards that `suggestTags` compares a text with. -/
def comparedStandards : List Wiki.Standard :=
  compared order context st st.db.knowledge.standards (isVisibleStandard now st) .standards .standard fun standard =>
    (st.standardColumns standard.id).updatedAt

/-- The actor may read the pages that these standards are linked to. -/
def LinkedReadable : Prop :=
  ∀ standard ∈ comparedStandards order context now st, ∀ link ∈ st.standardPages, link.standardId = standard.id →
    canRead order context st .pages .page link.pageId = true

/-- The entries of the kind that may be compared have well-formed hierarchies. -/
def Resolves (type : Wiki.KnowledgeKind) : Prop :=
  match type with
  | .wiki => ∀ page ∈ st.db.knowledge.pages, isVisiblePage page = true → WellFormed st.db.knowledge .page page.id
  | .note =>
    ∀ note ∈ st.db.knowledge.notes, isVisibleNote context st note = true → WellFormed st.db.knowledge .note note.id
  | .standard => ∀ standard ∈ st.db.knowledge.standards, isVisibleStandard now st standard = true →
      WellFormed st.db.knowledge .standard standard.id

end Service

/-- The actor has the same permissions in both states, and may read the same pages, notes and standards, which are the
same with their tags, shares and links. -/
structure Agrees (order : RowOrder) (context : KnowledgeAccessContext) (st st' : SuggestionStore) : Prop where
  permissions : ∀ actor, context.actor = some actor → ∀ permission,
    st'.db.directory.isAllowed actor permission = st.db.directory.isAllowed actor permission
  pages : readable order context st' st'.db.knowledge.pages .pages .page =
    readable order context st st.db.knowledge.pages .pages .page
  page : ∀ id, canRead order context st .pages .page id = true →
    st'.pageUpdatedAt id = st.pageUpdatedAt id ∧ st'.pageTags id = st.pageTags id
  notes : readable order context st' st'.db.knowledge.notes .notes .note =
    readable order context st st.db.knowledge.notes .notes .note
  note : ∀ id, canRead order context st .notes .note id = true → st'.noteColumns id = st.noteColumns id ∧
    st'.noteTags id = st.noteTags id ∧ isShared context st' id = isShared context st id
  standards : readable order context st' st'.db.knowledge.standards .standards .standard =
    readable order context st st.db.knowledge.standards .standards .standard
  standard : ∀ id, canRead order context st .standards .standard id = true →
    st'.standardColumns id = st.standardColumns id ∧
    st'.standardDescription id = st.standardDescription id ∧
    (st'.standardPages.rows.filter fun link => link.standardId == id) = st.standardPages.rows.filter fun link =>
      link.standardId == id

variable {order : RowOrder} {context : KnowledgeAccessContext} {now : Time} {st st' : SuggestionStore} {lang : Language}
  {provider : Option Provider} {input : McpSuggestTagsInput} {type : Wiki.KnowledgeKind}

/-! ## The rows that are compared -/

section Rows

variable {α : Type} {key : α → String} {table : Table key} {base : α → Bool} {resource : Resource}
  {targetType : TargetType}
  {updatedAt : α → Time} {document : α → TaggedDocument}

theorem canRead_iff {actor : AuthenticatedUser} (hactor : context.actor = some actor) {id : String} :
    canRead order context st resource targetType id = true ↔
      Allowed order st.db actor ⟨resource, .read, targetType, id⟩ := by
  rw [canRead, hactor, Option.any_some, Option.any_eq_true]
  exact exists_congr fun d => and_congr_left fun _ => toOption_eq_some

/-- Which ids a query asks for does not matter, as long as they are those that the actor may read. -/
theorem filter_eq_of_allowed {ids : List String}
    (h : ∀ row ∈ table, base row = true →
      (key row ∈ ids ↔ canRead order context st resource targetType (key row) = true)) :
    (table.rows.filter fun row => base row && ids.contains (key row)) =
      (readable order context st table resource targetType).filter base := by
  rw [readable, List.filter_filter]
  refine List.filter_congr fun row hrow => ?_
  cases hbase : base row with
  | false => rfl
  | true =>
    rw [Bool.true_and, Bool.true_and, Bool.eq_iff_iff, List.contains_iff_mem]
    exact h row hrow hbase

/-- **The documents are those of the readable rows.** -/
theorem taggedRows_ok (hsupported : isPermissionSupported ⟨resource, .read⟩ = true)
    (hfits : ∀ id, Fits st.db.knowledge targetType id resource)
    (hformed : ∀ row ∈ table, base row = true → WellFormed st.db.knowledge targetType (key row)) :
    taggedRows order context st table base resource targetType updatedAt document =
      .ok ((compared order context st table base resource targetType updatedAt).map document) := by
  have hids : ∃ ids, aclIds order context st resource targetType ((table.findMany order base).map key) = .ok ids ∧
      ∀ row ∈ table, base row = true →
        (key row ∈ ids ↔ canRead order context st resource targetType (key row) = true) := by
    cases hactor : context.actor with
    | none =>
      refine ⟨[], by rw [aclIds, hactor], fun row _ _ => ?_⟩
      simp [canRead, hactor]
    | some actor =>
      have hcandidates : ∀ id ∈ (table.findMany order base).map key, WellFormed st.db.knowledge targetType id := by
        intro id hid
        obtain ⟨row, hrow, rfl⟩ := List.mem_map.mp hid
        obtain ⟨hmem, hbase⟩ := Table.mem_findMany.mp hrow
        exact hformed row hmem hbase
      obtain ⟨decisions, hdecisions, -⟩ : ∃ decisions, st.db.evaluateMany order actor
          ⟨resource, .read, targetType, (table.findMany order base).map key⟩ = .ok decisions ∧ _ :=
        evaluateMany_same hcandidates order order hsupported fun _ id _ => hfits id
      have hok :
        ∃ ids, st.db.allowedTargetIds order actor ⟨resource, .read, targetType, (table.findMany order base).map key⟩ =
          .ok ids := ⟨_, bind_eq_ok.mpr ⟨decisions, hdecisions, rfl⟩⟩
      obtain ⟨ids, hids⟩ := hok
      refine ⟨ids, by rw [aclIds, hactor]; exact hids, fun row hrow hbase => ?_⟩
      have hmem : key row ∈ ids ↔ key row ∈ (table.findMany order base).map key ∧
          Allowed order st.db actor ⟨resource, .read, targetType, key row⟩ :=
        mem_allowedTargetIds (by exact hcandidates) (by exact hsupported) hids
      rw [hmem, canRead_iff hactor]
      exact and_iff_right (List.mem_map_of_mem (Table.mem_findMany.mpr ⟨hrow, hbase⟩))
  obtain ⟨ids, hok, hmem⟩ := hids
  rw [taggedRows, hok]
  show Except.ok _ = _
  rw [Table.findMany, filter_eq_of_allowed hmem]
  rfl

/-- The actor may read every row that is compared. -/
theorem canRead_of_mem_compared {row : α} (h : row ∈ compared order context st table base resource targetType updatedAt) :
    canRead order context st resource targetType (key row) = true := by
  have hmem := (order.perm _).mem_iff.mp ((List.mem_insertionSort _).mp (List.mem_of_mem_take h))
  exact (List.mem_filter.mp (List.mem_filter.mp hmem).1).2

/-- The same readable rows are compared in two states. -/
theorem compared_agrees {table' : Table key} {base' : α → Bool} {updatedAt' : α → Time}
    (hrows : readable order context st' table' resource targetType = readable order context st table resource targetType)
    (hcolumns : ∀ row, canRead order context st resource targetType (key row) = true →
      base' row = base row ∧ updatedAt' row = updatedAt row) :
    compared order context st' table' base' resource targetType updatedAt' =
      compared order context st table base resource targetType updatedAt := by
  have hfilter : (readable order context st table resource targetType).filter base' =
      (readable order context st table resource targetType).filter base :=
    List.filter_congr fun row hrow => (hcolumns row (List.mem_filter.mp hrow).2).1
  have hsort := List.map_insertionSort (fun a b => updatedAt' b ≤ updatedAt' a) (fun a b => updatedAt b ≤ updatedAt a) id
    (order.apply ((readable order context st table resource targetType).filter base)) fun a ha b hb => by
      have hread : ∀ row ∈ order.apply ((readable order context st table resource targetType).filter base),
          canRead order context st resource targetType (key row) = true := fun row hrow =>
        (List.mem_filter.mp (List.mem_filter.mp ((order.perm _).mem_iff.mp hrow)).1).2
      rw [(hcolumns a (hread a ha)).2, (hcolumns b (hread b hb)).2]
      rfl
  rw [List.map_id, List.map_id] at hsort
  rw [compared, hrows, hfilter, hsort]
  rfl

/-- The query for the rows fails where one of the candidates has no well-formed hierarchy. -/
theorem wellFormed_of_taggedRows {actor : AuthenticatedUser} {documents : List TaggedDocument}
    (hactor : context.actor = some actor) (hsupported : isPermissionSupported ⟨resource, .read⟩ = true)
    (hgranted : st.db.directory.isAllowed actor ⟨resource, .read⟩ = true)
    (hrows : ∀ row ∈ table, HasRow st.db.knowledge targetType (key row))
    (h : taggedRows order context st table base resource targetType updatedAt document = .ok documents) :
    ∀ row ∈ table, base row = true → WellFormed st.db.knowledge targetType (key row) := by
  intro row hrow hbase
  obtain ⟨ids, hids, -⟩ := bind_eq_ok.mp h
  simp only [aclIds, hactor] at hids
  obtain ⟨decisions, hdecisions, -⟩ := bind_eq_ok.mp hids
  have hmem : key row ∈ (table.findMany order base).map key := List.mem_map_of_mem (Table.mem_findMany.mpr ⟨hrow, hbase⟩)
  unfold Database.evaluateMany at hdecisions
  rw [if_neg (by simp [hsupported]), if_neg (List.ne_nil_of_mem (Js.mem_distinct.mpr hmem)),
    if_neg (by simp [hgranted])] at hdecisions
  obtain ⟨hierarchies, hresolved, -⟩ := bind_eq_ok.mp hdecisions
  refine wellFormed_of_resolveHierarchies st.references hresolved (fun id hid => ?_) (key row) (Js.mem_distinct.mpr hmem)
  obtain ⟨other, hother, rfl⟩ := List.mem_map.mp (Js.mem_distinct.mp hid)
  exact hrows other (Table.mem_findMany.mp hother).1

end Rows

/-! ## Two states that agree -/

/-- An entry fits a question about its kind. -/
theorem fits_entry (kb : Wiki.KnowledgeBase) (id : String) :
    Fits kb .page id .pages ∧ Fits kb .note id .notes ∧ Fits kb .standard id .standards := by
  refine ⟨fun r hr => ?_, fun r hr => ?_, fun r hr => ?_⟩
  · cases hr with
    | page _ hline _ =>
      obtain ⟨first, rest, -, rfl⟩ := hline.chain.head
      exact ⟨pageTarget first, rfl, by simp [pageTarget, target, Js.mem_distinct]⟩
  · cases hr with
    | personalNote | note => exact ⟨_, rfl, by simp [noteTarget, target, Js.mem_distinct]⟩
  · cases hr with
    | standard => exact ⟨_, rfl, by simp [standardTarget, target, Js.mem_distinct]⟩

/-- The documents of a state whose hierarchies are well formed. -/
theorem taggedDocuments_ok (h : Resolves context now st type) :
    taggedDocuments order context now st type = .ok (match type with
    | .wiki => (compared order context st st.db.knowledge.pages isVisiblePage .pages .page fun page =>
        st.pageUpdatedAt page.id).map (pageDocument order st)
    | .note => (compared order context st st.db.knowledge.notes (isVisibleNote context st) .notes .note fun note =>
        (st.noteColumns note.id).updatedAt).map (noteDocument order st)
    | .standard => (comparedStandards order context now st).map (standardDocument order st)) := by
  cases type with
  | wiki => exact taggedRows_ok (by decide) (fun id => (fits_entry _ id).1) h
  | note => exact taggedRows_ok (by decide) (fun id => (fits_entry _ id).2.1) h
  | standard => exact taggedRows_ok (by decide) (fun id => (fits_entry _ id).2.2) h

/-- The kind of entries as a resource. -/
def kindResource : Wiki.KnowledgeKind → Resource
  | .wiki => .pages
  | .note => .notes
  | .standard => .standards

/-- Suggestions for an actor who may read entries of the kind are made only where the hierarchies are well formed. -/
theorem resolves_of_taggedDocuments {actor : AuthenticatedUser} {documents : List TaggedDocument}
    (hactor : context.actor = some actor) (hgranted : st.db.directory.isAllowed actor ⟨kindResource type, .read⟩ = true)
    (h : taggedDocuments order context now st type = .ok documents) : Resolves context now st type := by
  cases type with
  | wiki =>
    refine wellFormed_of_taggedRows hactor (by decide) hgranted (fun page hpage => ?_) h
    rw [HasRow, Table.find_of_mem hpage]
    rfl
  | note =>
    refine wellFormed_of_taggedRows hactor (by decide) hgranted (fun note hnote => ?_) h
    rw [HasRow, Table.find_of_mem hnote]
    rfl
  | standard =>
    refine wellFormed_of_taggedRows hactor (by decide) hgranted (fun standard hstandard => ?_) h
    rw [HasRow, Table.find_of_mem hstandard]
    rfl

theorem comparedStandards_agrees (h : Agrees order context st st') :
    comparedStandards order context now st' = comparedStandards order context now st :=
  compared_agrees h.standards fun standard hread => by
    obtain ⟨hcolumns, -⟩ := h.standard standard.id hread
    exact ⟨by rw [isVisibleStandard, isVisibleStandard, hcolumns], by rw [hcolumns]⟩

/-- A standard whose linked pages are readable has the same document in both states. -/
theorem standardDocument_agrees (h : Agrees order context st st') {standard : Wiki.Standard}
    (hread : canRead order context st .standards .standard standard.id = true)
    (hlinked : ∀ link ∈ st.standardPages, link.standardId = standard.id →
      canRead order context st .pages .page link.pageId = true) :
    standardDocument order st' standard = standardDocument order st standard := by
  obtain ⟨-, hdescription, hlinks⟩ := h.standard standard.id hread
  have htags : ∀ link ∈ st.standardPages.findMany order fun link => link.standardId == standard.id,
      order.apply (st'.pageTags link.pageId) = order.apply (st.pageTags link.pageId) := by
    intro link hlink
    obtain ⟨hmem, hid⟩ := Table.mem_findMany.mp hlink
    rw [(h.page link.pageId (hlinked link hmem (beq_iff_eq.mp hid))).2]
  have hmany : (st'.standardPages.findMany order fun link => link.standardId == standard.id) =
      st.standardPages.findMany order fun link => link.standardId == standard.id := congrArg order.apply hlinks
  rw [standardDocument, standardDocument, hdescription, hmany, List.flatMap_congr htags]

/-- The documents of two states that agree. -/
theorem taggedDocuments_agrees (h : Agrees order context st st') (hst : Resolves context now st type)
    (hst' : Resolves context now st' type) (hlinked : type = .standard → LinkedReadable order context now st) :
    taggedDocuments order context now st' type = taggedDocuments order context now st type := by
  rw [taggedDocuments_ok hst, taggedDocuments_ok hst']
  refine congrArg Except.ok ?_
  cases type with
  | wiki =>
    simp only
    rw [compared_agrees h.pages fun page hread => ⟨rfl, (h.page page.id hread).1⟩]
    refine List.map_congr_left fun page hpage => ?_
    rw [pageDocument, pageDocument, (h.page page.id (canRead_of_mem_compared hpage)).2]
  | note =>
    simp only
    have hcolumns : ∀ note : Wiki.Note, canRead order context st .notes .note note.id = true →
        isVisibleNote context st' note = isVisibleNote context st note ∧
          (st'.noteColumns note.id).updatedAt = (st.noteColumns note.id).updatedAt := by
      intro note hread
      obtain ⟨hnote, -, hshared⟩ := h.note note.id hread
      exact ⟨by rw [isVisibleNote, isVisibleNote, hnote, hshared], by rw [hnote]⟩
    rw [compared_agrees h.notes hcolumns]
    refine List.map_congr_left fun note hnote => ?_
    obtain ⟨hsame, htags, -⟩ := h.note note.id (canRead_of_mem_compared hnote)
    rw [noteDocument, noteDocument, hsame, htags]
  | standard =>
    simp only
    rw [comparedStandards_agrees h]
    refine List.map_congr_left fun standard hstandard => ?_
    exact standardDocument_agrees h (canRead_of_mem_compared hstandard) (hlinked rfl standard hstandard)

/-- Two states in which every text gets the same suggestions, or the same error. -/
def SuggestsAlike (order : RowOrder) (context : KnowledgeAccessContext) (now : Time) (lang : Language)
    (provider : Option Provider) (type : Wiki.KnowledgeKind) (st st' : SuggestionStore) : Prop :=
  ∀ input : McpSuggestTagsInput, input.type = type →
    suggestTags order context now st' lang provider input = suggestTags order context now st lang provider input

/-- **Suggestions tell nothing about unreadable rows**, as long as the linked pages are readable. -/
theorem suggestTags_agrees (h : Agrees order context st st') (hst : Resolves context now st type)
    (hst' : Resolves context now st' type) (hlinked : type = .standard → LinkedReadable order context now st) :
    SuggestsAlike order context now lang provider type st st' := by
  rintro input rfl
  rw [suggestTags, suggestTags, taggedDocuments_agrees h hst hst' hlinked]

/-! ## The tags of an unreadable page -/

/-- The state in which a page has other tags. -/
def retag (st : SuggestionStore) (pageId : String) (tags : List String) : SuggestionStore :=
  { st with pageTags := fun id => if id = pageId then tags else st.pageTags id }

@[simp] theorem retag_pageTags {pageId id : String} {tags : List String} :
    (retag st pageId tags).pageTags id = if id = pageId then tags else st.pageTags id := rfl

/-- The tags of a page that the actor may not read are not among what two states agree on. -/
theorem agrees_retag {pageId : String} {tags : List String} (h : canRead order context st .pages .page pageId = false) :
    Agrees order context st (retag st pageId tags) where
  permissions _ _ _ := rfl
  pages := rfl
  page id hread := by
    refine ⟨rfl, if_neg ?_⟩
    rintro rfl
    rw [h] at hread
    cases hread
  notes := rfl
  note _ _ := ⟨rfl, rfl, rfl⟩
  standards := rfl
  standard _ _ := ⟨rfl, rfl, rfl⟩

theorem suggestTags_ok {documents : List TaggedDocument} (hscope : kindScope input.type ∈ context.scopes)
    (h : taggedDocuments order context now st input.type = .ok documents) :
    suggestTags order context now st lang provider input =
      .ok (suggest lang provider input.title input.content input.limit documents) := by
  unfold suggestTags throwIf
  rw [if_neg (by simpa using hscope), h]
  rfl

/-- A text of signs that is longer than the tags of some documents. -/
theorem exists_fresh_tag (documents : List TaggedDocument) :
    ∃ content, IsSigns content ∧ ∀ document ∈ documents, content ∉ document.tags := by
  let lengths := (documents.flatMap TaggedDocument.tags).map String.length
  refine ⟨String.ofList (List.replicate (lengths.sum + 1) '-'), fun c hc => ?_, fun document hdocument hmem => ?_⟩
  · rw [String.toList_ofList] at hc
    exact Or.inr (List.eq_of_mem_replicate hc)
  · have hlength := List.single_le_sum (fun _ _ => Nat.zero_le _) _
      (List.mem_map_of_mem (f := String.length) (List.mem_flatMap.mpr ⟨document, hdocument, hmem⟩))
    rw [String.length_ofList, List.length_replicate] at hlength
    exact absurd hlength (Nat.not_succ_le_self _)

/-- **Suggestions tell nothing about unreadable rows exactly if the actor may read the linked pages.** For another text
they would show whether an unreadable page that a standard is linked to has some tag. -/
theorem suggestions_blind_iff (order : RowOrder) (lang : Language) (provider : Option Provider)
    (hst : Resolves context now st type) :
    (∀ st', Agrees order context st st' → Resolves context now st' type →
      SuggestsAlike order context now lang provider type st st') ↔
      (type = .standard → kindScope type ∈ context.scopes → LinkedReadable order context now st) := by
  constructor
  · rintro hblind rfl hscope standard hstandard link hlink hid
    by_contra hunreadable
    rw [Bool.not_eq_true] at hunreadable
    have hdocuments : ∀ tags, taggedDocuments order context now (retag st link.pageId tags) .standard =
        .ok ((comparedStandards order context now st).map (standardDocument order (retag st link.pageId tags))) :=
          fun tags =>
      @taggedDocuments_ok order context now (retag st link.pageId tags) .standard hst
    have hlength : ∀ tags, ((comparedStandards order context now st).map
        (standardDocument order (retag st link.pageId tags))).length ≤ 200 := by
      intro tags
      rw [List.length_map]
      exact List.length_take_le _ _
    have hnodup : ∀ tags, ∀ document ∈ (comparedStandards order context now st).map
        (standardDocument order (retag st link.pageId tags)), document.tags.Nodup := by
      intro tags document hdocument
      obtain ⟨other, -, rfl⟩ := List.mem_map.mp hdocument
      exact Js.nodup_distinct _
    -- the page has the text as its only tag, or no tag at all
    obtain ⟨content, hsigns, hfresh⟩ := exists_fresh_tag
      ((comparedStandards order context now st).map (standardDocument order (retag st link.pageId [])))
    have htag : content ∈ (standardDocument order (retag st link.pageId [content]) standard).tags := by
      refine Js.mem_distinct.mpr (List.mem_flatMap.mpr ⟨link, Table.mem_findMany.mpr ⟨hlink, beq_iff_eq.mpr hid⟩, ?_⟩)
      rw [(order.perm _).mem_iff, retag_pageTags, if_pos rfl]
      exact List.mem_singleton_self content
    obtain ⟨limit, suggestion, hsuggestion, hname⟩ := mem_suggest_signs lang provider hsigns
      (hlength [content]) (hnodup [content]) (List.mem_map_of_mem hstandard) htag
    have hsame :
      ∀ tags, suggestTags order context now (retag st link.pageId tags) lang provider ⟨none, content, .standard, limit⟩ =
        suggestTags order context now st lang provider ⟨none, content, .standard, limit⟩ := fun tags =>
      hblind _ (agrees_retag hunreadable) hst _ rfl
    have heq := (hsame [content]).trans (hsame []).symm
    rw [suggestTags_ok hscope (hdocuments [content]), suggestTags_ok hscope (hdocuments [])] at heq
    rw [Except.ok.inj heq] at hsuggestion
    obtain ⟨document, hdocument, hmem⟩ := documents_of_mem_suggest hsuggestion
    exact hfresh document hdocument (hname ▸ hmem)
  · intro hlinked st' h hst' input htype
    subst htype
    by_cases hscope : kindScope input.type ∈ context.scopes
    · exact suggestTags_agrees h hst hst' (fun htype => hlinked htype hscope) input rfl
    · have hdenied : ∀ s, suggestTags order context now s lang provider input =
          .error (.forbidden "Für diese Wissensvorschläge fehlt die Leseberechtigung.") := by
        intro s
        unfold suggestTags throwIf
        rw [if_pos (by simpa using hscope)]
        rfl
      rw [hdenied, hdenied]

/-- An entry without a well-formed hierarchy, which the actor cannot read either, makes every call fail. -/
theorem suggestTags_malformed {actor : AuthenticatedUser} (hactor : context.actor = some actor)
    (hgranted : st'.db.directory.isAllowed actor ⟨kindResource type, .read⟩ = true)
    (hscope : kindScope type ∈ context.scopes)
    (hst : Resolves context now st type) (hst' : ¬Resolves context now st' type) :
    ∀ input : McpSuggestTagsInput, input.type = type →
      suggestTags order context now st' lang provider input ≠ suggestTags order context now st lang provider input := by
  rintro input rfl heq
  rw [suggestTags_ok hscope (taggedDocuments_ok hst)] at heq
  obtain ⟨-, -, hdocuments⟩ := bind_eq_ok.mp heq
  obtain ⟨documents, hdocuments, -⟩ := bind_eq_ok.mp hdocuments
  exact hst' (resolves_of_taggedDocuments hactor hgranted hdocuments)

namespace HiddenTagDemo

def space : Wiki.KnowledgeSpace := ⟨"space", "Handbook", .opened, [.wiki, .standard]⟩

def page : Wiki.Page :=
  ⟨"page", "Plan", "plan", .page, "", none, .published, false, false, 1, 0, none, none, "space", "user", none, none⟩

def standard : Wiki.Standard := ⟨"standard", "Servers", "space", none⟩

/-- A viewer may read the standards, but not this page. -/
def db : Database where
  directory :=
    { roles := .single ⟨"viewer", "viewer"⟩
      users := .single ⟨"user", "user@wiki", "user", "User", "", "viewer", true, false, true⟩
      acls := ⟨[⟨"viewer", "pages", "read", true⟩, ⟨"viewer", "standards", "read", true⟩], by decide⟩
      permissions := .empty
      providers := .empty
      roleMappings := .empty
      externalIdentities := .empty
      externalRoleGrants := .empty }
  knowledge :=
    { spaces := .single space
      categories := .empty
      pages := .single page
      notes := .empty
      noteShares := .empty
      standards := .single standard }
  groupMemberships := .empty
  resourceAclEntries := .single ⟨"rule", .user "user", "page:page", "read", .deny, true⟩
  resourceAclBoundaries := .empty

/-- The standard is linked to the page, which has the tags. -/
def store (tags : List String) : SuggestionStore where
  db := db
  pageUpdatedAt _ := 1
  pageTags id := if id = "page" then tags else []
  noteColumns _ := ⟨.captured, "", false, none, 1⟩
  noteTags _ := []
  standardColumns _ := ⟨.active, .medium, 1, true, none, none, 1, []⟩
  standardDescription _ := "Rules for servers"
  standardPages := .single ⟨"standard", "page"⟩
  references :=
    { categorySpace := by simp [db, Table.mem_def]
      pageSpace := by simp [db, Table.mem_def, page, Table.find, space]
      pageCategory := by simp [db, Table.mem_def, page]
      noteSpace := by simp [db, Table.mem_def]
      noteCategory := by simp [db, Table.mem_def]
      standardSpace := by simp [db, Table.mem_def, standard, Table.find, space]
      standardCategory := by simp [db, Table.mem_def, standard] }

def viewer : AuthenticatedUser :=
  ⟨"user", "user@wiki", "user", "User", "viewer", "viewer", true, none, some false, some .jwt, none, none⟩

def viewerContext : KnowledgeAccessContext := ⟨"user", ["standards:read"], some viewer⟩

def draft : McpSuggestTagsInput := ⟨none, "our merger", .standard, 8⟩

theorem toLower_eq_sign {c d : Char} (hd : d = ' ' ∨ d = '-') : c.toLower = d ↔ c = d := by
  rcases Js.toLower_eq_or c with hsame | ⟨n, hn, rfl⟩
  · rw [hsame]
  · have hletters : ((List.range 26).all fun n => ((Char.ofNat ('A'.toNat + n)).toLower != ' ' &&
        (Char.ofNat ('A'.toNat + n)).toLower != '-' && Char.ofNat ('A'.toNat + n) != ' ' &&
        Char.ofNat ('A'.toNat + n) != '-')) = true := by decide
    have hletter := List.all_eq_true.mp hletters n (List.mem_range.mpr hn)
    simp only [Bool.and_eq_true, bne_iff_ne, ne_eq, and_assoc] at hletter
    obtain ⟨hblank, hdash, hblank', hdash'⟩ := hletter
    rcases hd with rfl | rfl
    · exact iff_of_false hblank hblank'
    · exact iff_of_false hdash hdash'

theorem map_toLower_eq {l l' : List Char} (h : ∀ c ∈ l', c = ' ' ∨ c = '-') : l.map Char.toLower = l' ↔ l = l' := by
  induction l' generalizing l with
  | nil => simp
  | cons d l' ih =>
    obtain ⟨hd, hl'⟩ := List.forall_mem_cons.mp h
    cases l with
    | nil => simp
    | cons c l => rw [List.map_cons, List.cons_eq_cons, List.cons_eq_cons, toLower_eq_sign hd, ih hl']

theorem splitOnP_signs {l : List Char} (h : ∀ c ∈ l, c = ' ' ∨ c = '-') :
    ∀ word ∈ l.splitOnP fun c => !c.isAlphanum, word = [] := by
  induction l with
  | nil => simp
  | cons d l ih =>
    obtain ⟨hd, hl⟩ := List.forall_mem_cons.mp h
    have hsign : (!d.isAlphanum) = true := by rcases hd with rfl | rfl <;> decide
    rw [List.splitOnP_cons_eq_if_modifyHead, if_pos hsign]
    exact List.forall_mem_cons.mpr ⟨rfl, ih hl⟩

/-- ASCII texts. -/
def plain : Language where
  toLocaleLowerCase s := String.ofList (s.toList.map Char.toLower)
  words s := (s.toList.splitOnP fun c => !c.isAlphanum).map String.ofList
  localeCompare a b := if a < b then -1 else if b < a then 1 else 0
  lower_signs s hs s' := by
    rw [← String.toList_inj, String.toList_ofList, map_toLower_eq hs, String.toList_inj]
  words_signs s hs word hword := by
    obtain ⟨cs, hcs, rfl⟩ := List.mem_map.mp hword
    rw [splitOnP_signs hs cs hcs]

theorem standard_wellFormed : WellFormed db.knowledge .standard "standard" := by
  have hfind : db.knowledge.standards.find "standard" = some standard := by decide +kernel
  have hspace : db.knowledge.spaces.find "space" = some space := by decide +kernel
  refine ⟨_, .standard hfind hspace ?_⟩
  intro id h
  cases h

theorem resolves (tags : List String) : Resolves viewerContext 5 (store tags) .standard := by
  intro row hrow _
  obtain rfl := List.mem_singleton.mp hrow
  exact standard_wellFormed

theorem page_hidden : canRead .stored viewerContext (store []) .pages .page "page" = false := by decide +kernel

end HiddenTagDemo

/-- The tag of a page that the viewer may not read is suggested. -/
theorem hidden_tag_suggested :
    Resolves HiddenTagDemo.viewerContext 5 (HiddenTagDemo.store []) .standard ∧
      Resolves HiddenTagDemo.viewerContext 5 (HiddenTagDemo.store ["Merger"]) .standard ∧
      Agrees .stored HiddenTagDemo.viewerContext (HiddenTagDemo.store []) (HiddenTagDemo.store ["Merger"]) ∧
      suggestTags .stored HiddenTagDemo.viewerContext 5 (HiddenTagDemo.store ["Merger"]) HiddenTagDemo.plain none
          HiddenTagDemo.draft ≠
        suggestTags .stored HiddenTagDemo.viewerContext 5 (HiddenTagDemo.store []) HiddenTagDemo.plain none
          HiddenTagDemo.draft := by
  refine ⟨HiddenTagDemo.resolves [], HiddenTagDemo.resolves ["Merger"], ?_, ?_⟩
  · have hretag : HiddenTagDemo.store ["Merger"] = retag (HiddenTagDemo.store []) "page" ["Merger"] := by
      simp only [HiddenTagDemo.store, retag]
      congr 1
      funext id
      split <;> simp_all
    rw [hretag]
    exact agrees_retag HiddenTagDemo.page_hidden
  · intro heq
    have hwith :
      (suggestTags .stored HiddenTagDemo.viewerContext 5 (HiddenTagDemo.store ["Merger"]) HiddenTagDemo.plain none
        HiddenTagDemo.draft).toOption.any (fun out => out.results.length == 1) = true := by decide +kernel
    have hwithout : (suggestTags .stored HiddenTagDemo.viewerContext 5 (HiddenTagDemo.store []) HiddenTagDemo.plain none
        HiddenTagDemo.draft).toOption.any (fun out => out.results.length == 1) = false := by decide +kernel
    rw [heq, hwithout] at hwith
    cases hwith

/-- The page that the standard of the viewer is linked to is not readable. -/
theorem suggestions_not_blind :
    ¬∀ st', Agrees .stored HiddenTagDemo.viewerContext (HiddenTagDemo.store []) st' →
      Resolves HiddenTagDemo.viewerContext 5 st' .standard →
        SuggestsAlike .stored HiddenTagDemo.viewerContext 5 HiddenTagDemo.plain none .standard
          (HiddenTagDemo.store []) st' := by
  rw [suggestions_blind_iff .stored HiddenTagDemo.plain none (HiddenTagDemo.resolves [])]
  intro hlinked
  have hmem :
      HiddenTagDemo.standard ∈ comparedStandards .stored HiddenTagDemo.viewerContext 5 (HiddenTagDemo.store []) := by
    decide +kernel
  have hread := hlinked rfl (by decide) HiddenTagDemo.standard hmem ⟨"standard", "page"⟩ (List.mem_singleton.mpr rfl) rfl
  rw [HiddenTagDemo.page_hidden] at hread
  cases hread

end AdWiki.Knowledge.TagSuggestions
