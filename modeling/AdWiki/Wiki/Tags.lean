import AdWiki.Common.Http
import AdWiki.Common.JsString
import AdWiki.Lib.Fallible
import AdWiki.Lib.OrderedMap
import AdWiki.Lib.Rows

/-!
# Tags

The tags of a page or a note are names; `tagRelations` makes of each a relation to the tag with the slug of the name,
which the data store creates where no tag has that slug. The options of `slugify` are part of the parameter.

* `uniqueNames_deduplicated`, `uniqueNoteNames_deduplicated`: the names that are left of a list.
* `createRelations_spec`, `createRelations_isOk`: what a write stores, and when it succeeds.
* `tags_read_back_iff`: when a list of tags is read back as it was written.
-/

namespace AdWiki.Wiki

/-! ## Tables -/

structure Tag where
  id : String
  name : String
  slug : String
  deriving DecidableEq, Repr

inductive TagOwner
  | page (id : String)
  | note (id : String)
  deriving DecidableEq, Repr

/-- A row of `tags_on_pages` or of `tags_on_notes`. -/
structure TagLink where
  owner : TagOwner
  tagId : String
  deriving DecidableEq, Repr

/-- The tables with their unique indexes and the foreign key of the links. -/
structure TagDatabase where
  tags : List Tag
  links : List TagLink
  ids : (tags.map Tag.id).Nodup
  names : (tags.map Tag.name).Nodup
  slugs : (tags.map Tag.slug).Nodup
  unique : links.Nodup
  foreign : ∀ link ∈ links, ∃ tag ∈ tags, tag.id = link.tagId

/-- `uuid()`, which returns what has not been there. -/
structure Uuids where
  next : List String → String
  fresh : ∀ used, next used ∉ used

namespace TagDatabase

def findSlug (db : TagDatabase) (slug : String) : Option Tag := db.tags.find? fun tag => tag.slug = slug

def findId (db : TagDatabase) (id : String) : Option Tag := db.tags.find? fun tag => tag.id = id

def createTag (db : TagDatabase) (tag : Tag) : Except HttpError TagDatabase :=
  if h : ((db.tags ++ [tag]).map Tag.id).Nodup ∧ ((db.tags ++ [tag]).map Tag.name).Nodup ∧
    ((db.tags ++ [tag]).map Tag.slug).Nodup then
    .ok { db with
      tags := db.tags ++ [tag]
      ids := h.1
      names := h.2.1
      slugs := h.2.2
      foreign := fun link hlink => by
        obtain ⟨found, hfound, hid⟩ := db.foreign link hlink
        exact ⟨found, List.mem_append_left _ hfound, hid⟩ }
  else .error .uniqueConstraint

def createLink (db : TagDatabase) (link : TagLink) : Except HttpError TagDatabase :=
  if h : link ∈ db.links then .error .uniqueConstraint
  else if hforeign : ∃ tag ∈ db.tags, tag.id = link.tagId then
    .ok { db with
      links := db.links ++ [link]
      unique := List.nodup_append.mpr ⟨db.unique, List.nodup_singleton _, fun a ha b hb => by
        rw [List.mem_singleton] at hb
        rintro rfl
        exact h (hb ▸ ha)⟩
      foreign := fun other hother => by
        rcases List.mem_append.mp hother with hother | hother
        · exact db.foreign other hother
        · rw [List.mem_singleton] at hother
          exact hother ▸ hforeign }
  else .error .foreignKey

/-- `deleteMany: {}` below a page or a note. -/
def deleteLinks (db : TagDatabase) (owner : TagOwner) : TagDatabase :=
  { db with
    links := db.links.filter fun link => !decide (link.owner = owner)
    unique := db.unique.filter _
    foreign := fun link hlink => db.foreign link (List.mem_filter.mp hlink).1 }

/-- The tags of a page or a note, as they are read with it. -/
def linkedTags (db : TagDatabase) (owner : TagOwner) : List Tag :=
  (db.links.filter fun link => decide (link.owner = owner)).filterMap fun link => db.findId link.tagId

def tagNames (db : TagDatabase) (owner : TagOwner) : List String := (db.linkedTags owner).map Tag.name

end TagDatabase

/-! ## The services -/

/-- `toLocaleLowerCase("de-DE")`, by the tables of Unicode. -/
structure Locale where
  toLocaleLowerCase : String → String
  eq_empty : ∀ s, toLocaleLowerCase s = "" ↔ s = ""

/-- What `tagRelations` asks to connect or create. -/
structure TagRelation where
  name : String
  slug : String
  deriving DecidableEq, Repr

section Services

variable (locale : Locale) (slugify : String → String) (uuids : Uuids)

/-- The map of `PagesService.tagRelations`. -/
def uniqueNames (tags : List String) : List String :=
  (tags.foldl (fun unique raw =>
    let name := Js.trim raw
    if name = "" then unique else unique.set (locale.toLocaleLowerCase name) name)
      (OrderedMap.empty : OrderedMap String String)).values

/-- The map of `NotesService.tagRelations`. -/
def uniqueNoteNames (tags : List String) : List String :=
  ((OrderedMap.empty : OrderedMap String String).setAll
    (tags.map fun name => (locale.toLocaleLowerCase (Js.trim name), Js.trim name))).values.filter fun name => name ≠ ""

def tagSlug (name : String) : String :=
  let generated := slugify name
  let fallback := "-".intercalate (name.toList.map fun c => String.ofList (Nat.toDigits 16 c.toNat))
  if generated = "" then "tag-" ++ fallback else generated

def PagesService.tagRelations (tags : List String) : List TagRelation :=
  (uniqueNames locale tags).map fun name => ⟨name, tagSlug slugify name⟩

def NotesService.tagRelations (tags : List String) : List TagRelation :=
  (uniqueNoteNames locale tags).map fun name => ⟨name, tagSlug slugify name⟩

/-- `connectOrCreate` -/
def connectOrCreate (db : TagDatabase) (relation : TagRelation) : Except HttpError (TagDatabase × Tag) :=
  match db.findSlug relation.slug with
  | some tag => .ok (db, tag)
  | none =>
    let tag : Tag := ⟨uuids.next (db.tags.map Tag.id), relation.name, relation.slug⟩
    (db.createTag tag).map fun db => (db, tag)

def createRelation (owner : TagOwner) (db : TagDatabase) (relation : TagRelation) : Except HttpError TagDatabase := do
  let (db, tag) ← connectOrCreate uuids db relation
  db.createLink ⟨owner, tag.id⟩

/-- A nested `create`, whose relations are written one after the other in the transaction of the page or note. -/
def createRelations (owner : TagOwner) (db : TagDatabase) (relations : List TagRelation) : Except HttpError TagDatabase :=
  relations.foldlM (createRelation uuids owner) db

/-- The tags that `create` of the pages writes. -/
def PagesService.createTags (db : TagDatabase) (id : String) (tags : List String) : Except HttpError TagDatabase :=
  createRelations uuids (.page id) db (PagesService.tagRelations locale slugify tags)

/-- The tags that `update` of the pages writes. -/
def PagesService.updateTags (db : TagDatabase) (id : String) (tags : Option (List String)) :
    Except HttpError TagDatabase :=
  match tags with
  | none => .ok db
  | some tags =>
    createRelations uuids (.page id) (db.deleteLinks (.page id)) (PagesService.tagRelations locale slugify tags)

/-- The tags that `create` of the notes writes. -/
def NotesService.createTags (db : TagDatabase) (id : String) (tags : List String) : Except HttpError TagDatabase :=
  createRelations uuids (.note id) db (NotesService.tagRelations locale slugify tags)

/-- The tags that `update` of the notes writes. -/
def NotesService.updateTags (db : TagDatabase) (id : String) (tags : Option (List String)) :
    Except HttpError TagDatabase :=
  match tags with
  | none => .ok db
  | some tags =>
    createRelations uuids (.note id) (db.deleteLinks (.note id)) (NotesService.tagRelations locale slugify tags)

end Services

/-! ## What is linked -/

variable {locale : Locale} {slugify : String → String} {uuids : Uuids} {db db' : TagDatabase} {owner : TagOwner}
  {relation : TagRelation} {relations : List TagRelation} {tags names : List String} {tag : Tag} {link : TagLink}

namespace TagDatabase

theorem eq_of_slug {a b : Tag} (ha : a ∈ db.tags) (hb : b ∈ db.tags) (h : a.slug = b.slug) : a = b :=
  Rows.eq_of_key db.slugs ha hb h

theorem findSlug_eq_some {slug : String} : db.findSlug slug = some tag ↔ tag ∈ db.tags ∧ tag.slug = slug :=
  Rows.find?_key db.slugs slug

theorem findSlug_eq_none {slug : String} : db.findSlug slug = none ↔ ∀ tag ∈ db.tags, tag.slug ≠ slug := by
  simp [findSlug]

theorem findId_eq_some {id : String} : db.findId id = some tag ↔ tag ∈ db.tags ∧ tag.id = id := Rows.find?_key db.ids id

/-- A link leads to the tag with its id. -/
theorem find_link (h : link ∈ db.links) :
    ∃ tag ∈ db.tags, tag.id = link.tagId ∧ db.findId link.tagId = some tag := by
  obtain ⟨tag, htag, hid⟩ := db.foreign link h
  exact ⟨tag, htag, hid, findId_eq_some.mpr ⟨htag, hid⟩⟩

theorem mem_linkedTags (h : tag ∈ db.linkedTags owner) : tag ∈ db.tags := by
  obtain ⟨link, -, hfind⟩ := List.mem_filterMap.mp h
  exact (findId_eq_some.mp hfind).1

theorem map_id_linkedTags :
    (db.linkedTags owner).map Tag.id = (db.links.filter fun link => decide (link.owner = owner)).map TagLink.tagId := by
  have hall : ∀ links : List TagLink, (∀ link ∈ links, link ∈ db.links) →
      (links.filterMap fun link => db.findId link.tagId).map Tag.id = links.map TagLink.tagId := by
    intro links hlinks
    induction links with
    | nil => rfl
    | cons link links ih =>
      obtain ⟨tag, -, hid, hfind⟩ := find_link (hlinks link List.mem_cons_self)
      have hcons : (link :: links).filterMap (fun link => db.findId link.tagId) =
          tag :: links.filterMap fun link => db.findId link.tagId := List.filterMap_cons_some hfind
      rw [hcons, List.map_cons, List.map_cons, hid, ih fun other hother => hlinks other (List.mem_cons_of_mem _ hother)]
  exact hall _ fun link hlink => (List.mem_filter.mp hlink).1

/-- No tag is linked twice. -/
theorem nodup_linkedTags : ((db.linkedTags owner).map Tag.slug).Nodup := by
  have hids : ((db.linkedTags owner).map Tag.id).Nodup := by
    rw [map_id_linkedTags]
    refine (db.unique.filter _).map_on fun a ha b hb hid => ?_
    have hsame : a.owner = b.owner :=
      (of_decide_eq_true (List.mem_filter.mp ha).2).trans (of_decide_eq_true (List.mem_filter.mp hb).2).symm
    cases a
    cases b
    cases hsame
    cases hid
    rfl
  exact hids.of_map.map_on fun a ha b hb hslug => eq_of_slug (mem_linkedTags ha) (mem_linkedTags hb) hslug

/-- One more link, and perhaps the tag that it leads to. -/
theorem linkedTags_append {more : List Tag} (htags : db'.tags = db.tags ++ more)
    (hlinks : db'.links = db.links ++ [⟨owner, tag.id⟩])
    (htag : tag ∈ db'.tags) : db'.linkedTags owner = db.linkedTags owner ++ [tag] := by
  have hnew : db'.findId tag.id = some tag := findId_eq_some.mpr ⟨htag, rfl⟩
  have hold : ∀ link ∈ db.links.filter fun link => decide (link.owner = owner),
      db'.findId link.tagId = db.findId link.tagId := by
    intro link hlink
    obtain ⟨found, hfound, hid, hfind⟩ := find_link (List.mem_filter.mp hlink).1
    rw [hfind]
    exact findId_eq_some.mpr ⟨htags ▸ List.mem_append_left _ hfound, hid⟩
  unfold linkedTags
  rw [hlinks, List.filter_append, List.filterMap_append, List.filterMap_congr hold]
  simp [hnew]

end TagDatabase

/-! ## One relation -/

/-- No stored tag is in the way of a relation, or there is one with its slug. -/
def Resolvable (db : TagDatabase) (relation : TagRelation) : Prop :=
  (∃ tag ∈ db.tags, tag.slug = relation.slug) ∨ ∀ tag ∈ db.tags, tag.slug ≠ relation.slug ∧ tag.name ≠ relation.name

/-- The name that is stored for a relation. -/
def storedName (db : TagDatabase) (relation : TagRelation) : String :=
  ((db.findSlug relation.slug).map Tag.name).getD relation.name

/-- What `createRelation` does with the tag that it links. -/
structure RelationCreated (owner : TagOwner) (db : TagDatabase) (relation : TagRelation) (db' : TagDatabase)
    (tag : Tag) : Prop where
  slug_eq : tag.slug = relation.slug
  name_eq : tag.name = storedName db relation
  resolvable : Resolvable db relation
  linked : db'.linkedTags owner = db.linkedTags owner ++ [tag]
  tags : ∃ more, db'.tags = db.tags ++ more ∧ ∀ other ∈ more, other.slug = relation.slug ∧ other.name = relation.name

theorem createLink_eq_ok (h : db.createLink link = .ok db') : db'.tags = db.tags ∧ db'.links = db.links ++ [link] ∧
    ∃ tag ∈ db.tags, tag.id = link.tagId := by
  unfold TagDatabase.createLink at h
  split at h
  · cases h
  · split at h
    · next hforeign =>
      cases h
      exact ⟨rfl, rfl, hforeign⟩
    · cases h

theorem createTag_eq_ok (h : db.createTag tag = .ok db') : db'.tags = db.tags ++ [tag] ∧ db'.links = db.links ∧
    ∀ other ∈ db.tags, other.name ≠ tag.name := by
  unfold TagDatabase.createTag at h
  split at h
  · next hunique =>
    cases h
    refine ⟨rfl, rfl, fun other hother heq => ?_⟩
    have hnames := hunique.2.1
    rw [List.map_append, List.nodup_append] at hnames
    exact hnames.2.2 _ (List.mem_map_of_mem hother) _ (by simp) heq
  · cases h

theorem connectOrCreate_eq_ok (h : connectOrCreate uuids db relation = .ok (db', tag)) :
    tag ∈ db'.tags ∧ tag.slug = relation.slug ∧ tag.name = storedName db relation ∧ Resolvable db relation ∧
      db'.links = db.links ∧
      ∃ more, db'.tags = db.tags ++ more ∧ ∀ other ∈ more, other.slug = relation.slug ∧ other.name = relation.name := by
  unfold connectOrCreate at h
  split at h
  · next found hfound =>
    cases h
    obtain ⟨hmem, hslug⟩ := TagDatabase.findSlug_eq_some.mp hfound
    exact ⟨hmem, hslug, by rw [storedName, hfound]; rfl, Or.inl ⟨tag, hmem, hslug⟩, rfl, [], by simp, by simp⟩
  · next hnone =>
    obtain ⟨created, hcreate, hpair⟩ := Fallible.map_eq_ok h
    cases hpair
    obtain ⟨htags, hlinks, hnames⟩ := createTag_eq_ok hcreate
    refine ⟨by simp [htags], rfl, by rw [storedName, hnone]; rfl, Or.inr fun other hother => ?_, hlinks, _,
      htags, by simp⟩
    exact ⟨TagDatabase.findSlug_eq_none.mp hnone other hother, hnames other hother⟩

theorem createRelation_eq_ok (h : createRelation uuids owner db relation = .ok db') :
    ∃ tag, RelationCreated owner db relation db' tag := by
  obtain ⟨⟨between, tag⟩, hconnect, hlink⟩ := Fallible.bind_eq_ok.mp h
  obtain ⟨htags, hlinks, -⟩ := createLink_eq_ok hlink
  obtain ⟨hmem, hslug, hname, hresolvable, hbetween, more, hmore, hall⟩ := connectOrCreate_eq_ok hconnect
  have hall' : db'.tags = db.tags ++ more := htags.trans hmore
  exact ⟨tag, hslug, hname, hresolvable,
    TagDatabase.linkedTags_append hall' (hlinks.trans (by rw [hbetween])) (htags ▸ hmem), more, hall', hall⟩

theorem createTag_isOk (hid : ∀ other ∈ db.tags, other.id ≠ tag.id)
    (hother : ∀ other ∈ db.tags, other.slug ≠ tag.slug ∧ other.name ≠ tag.name) :
    ∃ db', db.createTag tag = .ok db' ∧ db'.tags = db.tags ++ [tag] ∧ db'.links = db.links := by
  have happend : ∀ (column : Tag → String), (db.tags.map column).Nodup → (∀ other ∈ db.tags, column other ≠ column tag) →
      ((db.tags ++ [tag]).map column).Nodup := by
    intro column hnodup hnew
    rw [List.map_append, List.nodup_append]
    refine ⟨hnodup, by simp, fun a ha b hb => ?_⟩
    obtain ⟨other, hmem, rfl⟩ := List.mem_map.mp ha
    rw [List.map_singleton, List.mem_singleton] at hb
    exact hb ▸ hnew other hmem
  unfold TagDatabase.createTag
  rw [dif_pos ⟨happend _ db.ids hid, happend _ db.names fun other h => (hother other h).2,
    happend _ db.slugs fun other h => (hother other h).1⟩]
  exact ⟨_, rfl, rfl, rfl⟩

theorem createLink_isOk (h : link ∉ db.links) (hforeign : ∃ tag ∈ db.tags, tag.id = link.tagId) :
    ∃ db', db.createLink link = .ok db' := by
  unfold TagDatabase.createLink
  rw [dif_neg h, dif_pos hforeign]
  exact ⟨_, rfl⟩

/-- A relation to a tag that is not linked yet is created. -/
theorem createRelation_isOk (h : Resolvable db relation) (hnew : relation.slug ∉ (db.linkedTags owner).map Tag.slug) :
    ∃ db', createRelation uuids owner db relation = .ok db' := by
  have hlinked :
      ∀ {id}, (⟨owner, id⟩ : TagLink) ∈ db.links → ∃ tag ∈ db.tags, tag.id = id ∧ tag.slug ≠ relation.slug := by
    intro id hlink
    obtain ⟨tag, htag, hid, hfind⟩ := TagDatabase.find_link hlink
    refine ⟨tag, htag, hid, fun hslug => hnew (hslug ▸ List.mem_map_of_mem ?_)⟩
    exact List.mem_filterMap.mpr ⟨_, List.mem_filter.mpr ⟨hlink, by simp⟩, hfind⟩
  unfold createRelation connectOrCreate
  cases hfind : db.findSlug relation.slug with
  | some tag =>
    obtain ⟨htag, hslug⟩ := TagDatabase.findSlug_eq_some.mp hfind
    refine createLink_isOk (fun hlink => ?_) ⟨tag, htag, rfl⟩
    obtain ⟨other, hother, hid, hne⟩ := hlinked hlink
    exact hne (Rows.eq_of_key db.ids hother htag hid ▸ hslug)
  | none =>
    have hslug := TagDatabase.findSlug_eq_none.mp hfind
    have hfresh : ∀ other ∈ db.tags, other.id ≠ uuids.next (db.tags.map Tag.id) := by
      intro other hother heq
      exact uuids.fresh _ (heq ▸ List.mem_map_of_mem (f := Tag.id) hother)
    have hother : ∀ other ∈ db.tags, other.slug ≠ relation.slug ∧ other.name ≠ relation.name := by
      rcases h with ⟨tag, htag, heq⟩ | h
      · exact absurd heq (hslug tag htag)
      · exact h
    obtain ⟨between, hcreate, htags, hlinks⟩ := @createTag_isOk db
      ⟨uuids.next (db.tags.map Tag.id), relation.name, relation.slug⟩ hfresh hother
    dsimp only
    rw [hcreate]
    refine @createLink_isOk between _ (fun hlink => ?_)
      ⟨_, by rw [htags]; exact List.mem_append_right _ List.mem_cons_self, rfl⟩
    obtain ⟨other, hmem, hid, -⟩ := hlinked (hlinks ▸ hlink)
    exact hfresh other hmem hid

/-! ## All relations -/

theorem RelationCreated.findSlug_eq {slug : String} (h : RelationCreated owner db relation db' tag)
    (hslug : slug ≠ relation.slug) :
    db'.findSlug slug = db.findSlug slug := by
  obtain ⟨more, htags, hall⟩ := h.tags
  have hnone : (more.find? fun tag => decide (tag.slug = slug)) = none := by
    rw [List.find?_eq_none]
    intro other hother
    rw [decide_eq_true_eq, (hall other hother).1]
    exact hslug.symm
  rw [TagDatabase.findSlug, htags, List.find?_append, hnone, Option.or_none]
  rfl

/-- A relation with another slug and another name is not affected by the one before. -/
theorem RelationCreated.resolvable_iff {other : TagRelation} (h : RelationCreated owner db relation db' tag)
    (hslug : other.slug ≠ relation.slug) :
    Resolvable db' other → Resolvable db other := by
  obtain ⟨more, htags, hall⟩ := h.tags
  rintro (⟨found, hfound, heq⟩ | hnone)
  · rw [htags] at hfound
    rcases List.mem_append.mp hfound with hfound | hfound
    · exact Or.inl ⟨found, hfound, heq⟩
    · exact absurd (heq.symm.trans (hall found hfound).1) hslug
  · exact Or.inr fun found hfound => hnone found (htags ▸ List.mem_append_left _ hfound)

theorem RelationCreated.resolvable_after {other : TagRelation} (h : RelationCreated owner db relation db' tag)
    (hslug : other.slug ≠ relation.slug)
    (hname : other.name ≠ relation.name) (hother : Resolvable db other) : Resolvable db' other := by
  obtain ⟨more, htags, hall⟩ := h.tags
  rcases hother with ⟨found, hfound, heq⟩ | hnone
  · exact Or.inl ⟨found, htags ▸ List.mem_append_left _ hfound, heq⟩
  · refine Or.inr fun found hfound => ?_
    rw [htags] at hfound
    rcases List.mem_append.mp hfound with hfound | hfound
    · exact hnone found hfound
    · obtain ⟨heq, hname'⟩ := hall found hfound
      exact ⟨fun h => hslug (h.symm.trans heq), fun h => hname (h.symm.trans hname')⟩

/-- **What a write stores.** -/
theorem createRelations_eq_ok (h : createRelations uuids owner db relations = .ok db') :
    (db'.linkedTags owner).map Tag.slug = (db.linkedTags owner).map Tag.slug ++ relations.map TagRelation.slug ∧
      db'.tagNames owner = db.tagNames owner ++ relations.map (storedName db) ∧
        ∀ relation ∈ relations, Resolvable db relation := by
  induction relations generalizing db with
  | nil =>
    cases h
    simp
  | cons relation relations ih =>
    obtain ⟨between, hfirst, hrest⟩ := Fallible.bind_eq_ok.mp h
    obtain ⟨tag, hcreated⟩ := createRelation_eq_ok hfirst
    obtain ⟨hslugs, hnames, hresolvable⟩ := ih hrest
    rw [hcreated.linked, List.map_append, List.map_singleton, hcreated.slug_eq, List.append_assoc] at hslugs
    have hnodup := @TagDatabase.nodup_linkedTags db' owner
    rw [hslugs] at hnodup
    have hother : ∀ other ∈ relations, other.slug ≠ relation.slug := by
      intro other hother heq
      have htail := (List.nodup_append.mp hnodup).2.1
      exact (List.nodup_cons.mp htail).1 (heq ▸ List.mem_map_of_mem hother)
    have hstored : relations.map (storedName between) = relations.map (storedName db) := by
      refine List.map_congr_left fun other hmem => ?_
      rw [storedName, storedName, hcreated.findSlug_eq (hother other hmem)]
    refine ⟨hslugs, ?_, fun other hmem => ?_⟩
    · rw [hnames, hstored, TagDatabase.tagNames, hcreated.linked, List.map_append, List.map_singleton, hcreated.name_eq,
        List.append_assoc]
      rfl
    · rcases List.mem_cons.mp hmem with rfl | hmem
      · exact hcreated.resolvable
      · exact hcreated.resolvable_iff (hother other hmem) (hresolvable other hmem)

/-- A write succeeds if no tag would be linked twice and none is in the way. -/
theorem createRelations_isOk (hslugs : ((db.linkedTags owner).map Tag.slug ++ relations.map TagRelation.slug).Nodup)
    (hnames : (relations.map TagRelation.name).Nodup) (hresolvable : ∀ relation ∈ relations, Resolvable db relation) :
    ∃ db', createRelations uuids owner db relations = .ok db' := by
  induction relations generalizing db with
  | nil => exact ⟨db, rfl⟩
  | cons relation relations ih =>
    have hdisjoint := (List.nodup_append.mp hslugs).2.2
    obtain ⟨hslug, -⟩ := List.nodup_cons.mp (List.nodup_append.mp hslugs).2.1
    obtain ⟨hname, hnames⟩ := List.nodup_cons.mp hnames
    obtain ⟨between, hfirst⟩ := @createRelation_isOk uuids db owner relation (hresolvable relation List.mem_cons_self)
      fun hmem => hdisjoint _ hmem _ List.mem_cons_self rfl
    obtain ⟨tag, hcreated⟩ := createRelation_eq_ok hfirst
    obtain ⟨db', hrest⟩ := @ih between (by
      rw [hcreated.linked, List.map_append, List.map_singleton, hcreated.slug_eq, List.append_assoc]
      exact hslugs) hnames fun other hother => hcreated.resolvable_after
        (fun heq => hslug (heq ▸ List.mem_map_of_mem hother)) (fun heq => hname (heq ▸ List.mem_map_of_mem hother))
        (hresolvable other (List.mem_cons_of_mem _ hother))
    exact ⟨db', Fallible.bind_eq_ok.mpr ⟨between, hfirst, hrest⟩⟩

/-! ## The names that are left of a list -/

/-- The names of a list without white space around them. -/
def nonblank (tags : List String) : List String := (tags.map Js.trim).filter fun name => name ≠ ""

/-- The list trimmed and without duplicates: one name for each key, in the order of the keys. -/
structure Deduplicated (locale : Locale) (tags names : List String) : Prop where
  subset : ∀ name ∈ names, name ∈ nonblank tags
  keys : names.map locale.toLocaleLowerCase = Js.distinct ((nonblank tags).map locale.toLocaleLowerCase)

theorem keys_setEntry {k : String} {v : String} {l : List (String × String)} :
    (OrderedMap.setEntry k v l).map Prod.fst = if k ∈ l.map Prod.fst then l.map Prod.fst else l.map Prod.fst ++ [k] := by
  induction l with
  | nil => rfl
  | cons e l ih =>
    unfold OrderedMap.setEntry
    by_cases he : e.1 = k
    · simp [he]
    · have hne : k ≠ e.1 := fun h => he h.symm
      rw [if_neg he, List.map_cons, ih, List.map_cons]
      by_cases hk : k ∈ l.map Prod.fst
      · rw [if_pos hk, if_pos (List.mem_cons_of_mem _ hk)]
      · rw [if_neg hk, if_neg (List.not_mem_cons_of_ne_of_not_mem hne hk)]
        rfl

/-- The keys of a map stand in the order in which they were first set. -/
theorem keys_setAll {m : OrderedMap String String} {l : List (String × String)} :
    (m.setAll l).entries.map Prod.fst =
      m.entries.map Prod.fst ++ (Js.distinct (l.map Prod.fst)).filter fun k => k ∉ m.entries.map Prod.fst := by
  induction l generalizing m with
  | nil => simp [OrderedMap.setAll, Js.distinct]
  | cons e l ih =>
    have hset : m.setAll (e :: l) = (m.set e.1 e.2).setAll l := rfl
    have hkeys : (m.set e.1 e.2).entries.map Prod.fst =
        if e.1 ∈ m.entries.map Prod.fst then m.entries.map Prod.fst else m.entries.map Prod.fst ++ [e.1] := keys_setEntry
    rw [hset, ih, hkeys, List.map_cons, Js.distinct]
    by_cases he : e.1 ∈ m.entries.map Prod.fst
    · rw [if_pos he, List.filter_cons_of_neg (by simpa using he), List.filter_filter]
      congr 1
      refine List.filter_congr fun k _ => ?_
      by_cases hk : k = e.1
      · simp [hk, he]
      · simp [hk]
    · rw [if_neg he, List.filter_cons_of_pos (by simpa using he), List.filter_filter, List.append_assoc,
        List.singleton_append]
      congr 2
      refine List.filter_congr fun k _ => ?_
      simp only [List.mem_append, List.mem_singleton, not_or, Bool.decide_and]

theorem distinct_filter {α : Type*} [DecidableEq α] (p : α → Bool) (l : List α) :
    Js.distinct (l.filter p) = (Js.distinct l).filter p := by
  induction l with
  | nil => rfl
  | cons a l ih =>
    by_cases ha : p a = true
    · rw [List.filter_cons_of_pos ha, Js.distinct, Js.distinct, List.filter_cons_of_pos ha, ih, List.filter_filter,
        List.filter_filter]
      congr 1
      exact List.filter_congr fun b _ => Bool.and_comm _ _
    · rw [List.filter_cons_of_neg ha, Js.distinct, List.filter_cons_of_neg ha, ih, List.filter_filter]
      refine List.filter_congr fun b _ => ?_
      by_cases hb : b = a
      · simp [hb, ha]
      · simp [hb]

/-- The map of names under their keys. -/
def nameMap (locale : Locale) (names : List String) : OrderedMap String String :=
  (OrderedMap.empty : OrderedMap String String).setAll (names.map fun name => (locale.toLocaleLowerCase name, name))

theorem mem_nameMap {entry : String × String} (h : entry ∈ (nameMap locale names).entries) :
    entry.2 ∈ names ∧ entry.1 = locale.toLocaleLowerCase entry.2 := by
  have hget := OrderedMap.mem_of_get?_setAll (OrderedMap.get?_eq_some.mpr h)
  rw [OrderedMap.get?_empty] at hget
  obtain ⟨name, hname, heq⟩ := List.mem_map.mp (hget.resolve_right nofun)
  have hkey : locale.toLocaleLowerCase name = entry.1 := congrArg Prod.fst heq
  have hvalue : name = entry.2 := congrArg Prod.snd heq
  exact ⟨hvalue ▸ hname, by rw [← hkey, ← hvalue]⟩

theorem keys_nameMap :
    (nameMap locale names).entries.map Prod.fst = Js.distinct (names.map locale.toLocaleLowerCase) := by
  rw [nameMap, keys_setAll, List.map_map]
  simp [OrderedMap.empty, Function.comp_def]

/-- The names of the map that are not blank have their keys in order. -/
theorem map_values_nameMap {p : String → Bool} (h : ∀ name, p (locale.toLocaleLowerCase name) = p name) :
    ((nameMap locale names).values.filter p).map locale.toLocaleLowerCase =
      Js.distinct ((names.filter p).map locale.toLocaleLowerCase) := by
  have hkeys : (names.filter p).map locale.toLocaleLowerCase = (names.map locale.toLocaleLowerCase).filter p := by
    rw [List.filter_map]
    exact congrArg _ (List.filter_congr fun name _ => (h name).symm)
  have hentries : ∀ l : List (String × String), (∀ entry ∈ l, entry.1 = locale.toLocaleLowerCase entry.2) →
      ((l.map Prod.snd).filter p).map locale.toLocaleLowerCase = (l.map Prod.fst).filter p := by
    intro l hl
    rw [List.filter_map, List.filter_map, List.map_map]
    have hfilter : l.filter (p ∘ Prod.snd) = l.filter (p ∘ Prod.fst) := by
      refine List.filter_congr fun entry hentry => ?_
      rw [Function.comp_apply, Function.comp_apply, hl entry hentry, h]
    rw [hfilter]
    exact List.map_congr_left fun entry hentry => (hl entry (List.mem_filter.mp hentry).1).symm
  rw [hkeys, distinct_filter, ← keys_nameMap]
  exact hentries _ fun entry hentry => (mem_nameMap hentry).2

theorem uniqueNames_eq : uniqueNames locale tags = (nameMap locale (nonblank tags)).values := by
  have hfold : ∀ m : OrderedMap String String, tags.foldl (fun unique raw =>
      if Js.trim raw = "" then unique else unique.set (locale.toLocaleLowerCase (Js.trim raw)) (Js.trim raw)) m =
        m.setAll ((nonblank tags).map fun name => (locale.toLocaleLowerCase name, name)) := by
    induction tags with
    | nil => exact fun _ => rfl
    | cons raw tags ih =>
      intro m
      rw [List.foldl_cons, ih]
      by_cases hblank : Js.trim raw = ""
      · have hcons : nonblank (raw :: tags) = nonblank tags := by simp [nonblank, hblank]
        rw [if_pos hblank, hcons]
      · have hcons : nonblank (raw :: tags) = Js.trim raw :: nonblank tags := by simp [nonblank, hblank]
        rw [if_neg hblank, hcons]
        rfl
  exact congrArg OrderedMap.values (hfold _)

/-- **The tags of a page, trimmed and without duplicates.** -/
theorem uniqueNames_deduplicated : Deduplicated locale tags (uniqueNames locale tags) := by
  rw [uniqueNames_eq]
  refine ⟨fun name hname => ?_, ?_⟩
  · obtain ⟨entry, hentry, rfl⟩ := List.mem_map.mp hname
    exact (mem_nameMap hentry).1
  · have hall := @map_values_nameMap locale (nonblank tags) (fun _ => true) fun _ => rfl
    simpa using hall

/-- **The tags of a note, trimmed and without duplicates.** -/
theorem uniqueNoteNames_deduplicated : Deduplicated locale tags (uniqueNoteNames locale tags) := by
  have hmap : uniqueNoteNames locale tags = (nameMap locale (tags.map Js.trim)).values.filter fun name => name ≠ "" := by
    rw [nameMap, List.map_map]
    rfl
  rw [hmap]
  refine ⟨fun name hname => ?_, ?_⟩
  · obtain ⟨hvalue, hne⟩ := List.mem_filter.mp hname
    obtain ⟨entry, hentry, rfl⟩ := List.mem_map.mp hvalue
    exact List.mem_filter.mpr ⟨(mem_nameMap hentry).1, hne⟩
  · exact map_values_nameMap fun name => decide_eq_decide.mpr (not_congr (locale.eq_empty name))

/-! ## Reading back -/

/-- The calls that write tags. -/
inductive TagCall
  | create
  | update
  deriving DecidableEq, Repr

/-- The names that a service makes relations of. -/
def keptNames (locale : Locale) (owner : TagOwner) (tags : List String) : List String :=
  match owner with
  | .page _ => uniqueNames locale tags
  | .note _ => uniqueNoteNames locale tags

/-- The write of a list of tags by the service of pages or of notes. -/
def writeTags (locale : Locale) (slugify : String → String) (uuids : Uuids) (db : TagDatabase) (call : TagCall)
    (owner : TagOwner) (tags : List String) : Except HttpError TagDatabase :=
  match call, owner with
  | .create, .page id => PagesService.createTags locale slugify uuids db id tags
  | .update, .page id => PagesService.updateTags locale slugify uuids db id (some tags)
  | .create, .note id => NotesService.createTags locale slugify uuids db id tags
  | .update, .note id => NotesService.updateTags locale slugify uuids db id (some tags)

/-- The slugs of the names are different, and what is stored under them is spelled as in the list. -/
structure Fit (locale : Locale) (slugify : String → String) (db : TagDatabase) (tags names : List String) : Prop where
  slugs : (names.map (tagSlug slugify)).Nodup
  spelled : ∀ name ∈ names, ∀ tag ∈ db.tags, tag.slug = tagSlug slugify name →
    tag.name ∈ nonblank tags ∧ locale.toLocaleLowerCase tag.name = locale.toLocaleLowerCase name
  free : ∀ name ∈ names, ∀ tag ∈ db.tags, tag.name = name → ∃ tag ∈ db.tags, tag.slug = tagSlug slugify name

theorem keptNames_deduplicated : Deduplicated locale tags (keptNames locale owner tags) := by
  cases owner with
  | page id => exact uniqueNames_deduplicated
  | note id => exact uniqueNoteNames_deduplicated

theorem storedName_of_mem {name slug : String} (htag : tag ∈ db.tags) (hslug : tag.slug = slug) :
    storedName db ⟨name, slug⟩ = tag.name := by
  rw [storedName, TagDatabase.findSlug_eq_some.mpr ⟨htag, hslug⟩]
  rfl

theorem storedName_of_free {name slug : String} (h : ∀ tag ∈ db.tags, tag.slug ≠ slug) :
    storedName db ⟨name, slug⟩ = name := by
  rw [storedName, TagDatabase.findSlug_eq_none.mpr h]
  rfl

/-- The relations of the names, written where nothing is linked. -/
theorem createRelations_names_iff (hempty : db.linkedTags owner = []) (hnames : Deduplicated locale tags names) :
    (∃ db', createRelations uuids owner db (names.map fun name => ⟨name, tagSlug slugify name⟩) = .ok db' ∧
      Deduplicated locale tags (db'.tagNames owner)) ↔ Fit locale slugify db tags names := by
  have hslugs : (names.map fun name => (⟨name, tagSlug slugify name⟩ : TagRelation)).map TagRelation.slug =
      names.map (tagSlug slugify) := by
    rw [List.map_map]
    rfl
  have hkeep : (names.map fun name => (⟨name, tagSlug slugify name⟩ : TagRelation)).map TagRelation.name = names := by
    rw [List.map_map]
    exact List.map_id _
  have hread : ∀ db', createRelations uuids owner db (names.map fun name => ⟨name, tagSlug slugify name⟩) = .ok db' →
      db'.tagNames owner = names.map fun name => storedName db ⟨name, tagSlug slugify name⟩ := by
    intro db' hwrite
    rw [(createRelations_eq_ok hwrite).2.1, TagDatabase.tagNames, hempty, List.map_map]
    rfl
  constructor
  · rintro ⟨db', hwrite, hback⟩
    obtain ⟨hslugs', -, hresolvable⟩ := createRelations_eq_ok hwrite
    have hnodup := @TagDatabase.nodup_linkedTags db' owner
    rw [hslugs', hempty, hslugs] at hnodup
    have hkeys := hback.keys.trans hnames.keys.symm
    have hsubset := hback.subset
    rw [hread db' hwrite] at hkeys hsubset
    rw [List.map_map, List.map_inj_left] at hkeys
    refine ⟨hnodup, fun name hname tag htag hslug => ?_, fun name hname tag htag heq => ?_⟩
    · have hstored := @storedName_of_mem db tag name _ htag hslug
      exact ⟨hstored ▸ hsubset _ (List.mem_map_of_mem hname), hstored ▸ hkeys name hname⟩
    · rcases hresolvable ⟨name, tagSlug slugify name⟩ (List.mem_map_of_mem hname) with hfound | hfree
      · exact hfound
      · exact absurd heq (hfree tag htag).2
  · intro hfit
    have hkeysNodup : names.Nodup := by
      have := Js.nodup_distinct ((nonblank tags).map locale.toLocaleLowerCase)
      rw [← hnames.keys] at this
      exact this.of_map
    obtain ⟨db', hwrite⟩ := @createRelations_isOk uuids db owner
      (names.map fun name => ⟨name, tagSlug slugify name⟩) (by rw [hempty, hslugs]; exact hfit.slugs)
      (by rw [hkeep]; exact hkeysNodup) (by
        intro relation hrelation
        obtain ⟨name, hname, rfl⟩ := List.mem_map.mp hrelation
        by_cases hfound : ∃ tag ∈ db.tags, tag.slug = tagSlug slugify name
        · exact Or.inl hfound
        · refine Or.inr fun tag htag =>
            ⟨fun hslug => hfound ⟨tag, htag, hslug⟩, fun heq => hfound (hfit.free name hname tag htag heq)⟩)
    -- what is read back for a name is a name of the list with the same key
    have hstored : ∀ name ∈ names, storedName db ⟨name, tagSlug slugify name⟩ ∈ nonblank tags ∧
        locale.toLocaleLowerCase (storedName db ⟨name, tagSlug slugify name⟩) = locale.toLocaleLowerCase name := by
      intro name hname
      by_cases hfound : ∃ tag ∈ db.tags, tag.slug = tagSlug slugify name
      · obtain ⟨tag, htag, hslug⟩ := hfound
        rw [storedName_of_mem htag hslug]
        exact hfit.spelled name hname tag htag hslug
      · rw [storedName_of_free fun tag htag hslug => hfound ⟨tag, htag, hslug⟩]
        exact ⟨hnames.subset name hname, rfl⟩
    refine ⟨db', hwrite, ?_, ?_⟩
    · intro read hmem
      rw [hread db' hwrite] at hmem
      obtain ⟨name, hname, rfl⟩ := List.mem_map.mp hmem
      exact (hstored name hname).1
    · rw [hread db' hwrite, List.map_map, ← hnames.keys]
      exact List.map_congr_left fun name hname => (hstored name hname).2

theorem linkedTags_deleteLinks : (db.deleteLinks owner).linkedTags owner = [] := by
  have hnone : (db.deleteLinks owner).links.filter (fun link => decide (link.owner = owner)) = [] := by
    simp [TagDatabase.deleteLinks, List.filter_filter]
  rw [TagDatabase.linkedTags, hnone]
  rfl

theorem fit_deleteLinks : Fit locale slugify (db.deleteLinks owner) tags names ↔ Fit locale slugify db tags names :=
  ⟨fun h => ⟨h.slugs, h.spelled, h.free⟩, fun h => ⟨h.slugs, h.spelled, h.free⟩⟩

/-- **Tags are read back as they were written, exactly if they fit what is stored.** -/
theorem tags_read_back_iff (call : TagCall) (hnew : call = .create → db.linkedTags owner = []) :
    (∃ db', writeTags locale slugify uuids db call owner tags = .ok db' ∧ Deduplicated locale tags (db'.tagNames owner)) ↔
      Fit locale slugify db tags (keptNames locale owner tags) := by
  cases call with
  | create =>
    have hcreate :=
      @createRelations_names_iff _ slugify uuids _ _ _ _ (hnew rfl) (@keptNames_deduplicated locale owner tags)
    cases owner with
    | page id => exact hcreate
    | note id => exact hcreate
  | update =>
    have hupdate := @createRelations_names_iff _ slugify uuids _ _ _ _ (@linkedTags_deleteLinks db owner)
      (@keptNames_deduplicated locale owner tags)
    rw [fit_deleteLinks] at hupdate
    cases owner with
    | page id => exact hupdate
    | note id => exact hupdate

namespace Demo

def german : Locale where
  toLocaleLowerCase s := String.ofList (s.toList.map Char.toLower)
  eq_empty s := by
    rw [← String.toList_inj, String.toList_ofList, ← String.toList_inj]
    exact List.map_eq_nil_iff

/-- What `slugify` leaves of a name in ASCII without white space. -/
def lettersOf (name : String) : String := String.ofList ((name.toList.filter Char.isAlphanum).map Char.toLower)

/-- Longer than everything that has been there. -/
def longer : Uuids where
  next used := String.ofList (List.replicate ((used.map String.length).sum + 1) 'x')
  fresh used h := by
    have hle : ∀ l : List String, ∀ s ∈ l, s.length ≤ (l.map String.length).sum := by
      intro l s hs
      induction l with
      | nil => cases hs
      | cons a l ih =>
        rw [List.map_cons, List.sum_cons]
        rcases List.mem_cons.mp hs with rfl | hs
        · omega
        · have := ih hs
          omega
    have hlong := hle used _ h
    rw [String.length_ofList, List.length_replicate] at hlong
    omega

def noTags : TagDatabase := ⟨[], [], by simp, by simp, by simp, by simp, by simp⟩

/-- What is read back after the tags of a page are written. -/
def readBack (db : TagDatabase) (id : String) (tags : List String) : Except HttpError (List String) :=
  (writeTags german lettersOf longer db .create (.page id) tags).map fun db => db.tagNames (.page id)

end Demo

/-- Two names with one slug cannot be written, and after one of them the other is read back as the first. -/
theorem one_slug : Demo.readBack Demo.noTags "p" ["C++", "C#"] = .error .uniqueConstraint ∧
    ((writeTags Demo.german Demo.lettersOf Demo.longer Demo.noTags .create (.page "p") ["C++"]).bind fun db =>
      Demo.readBack db "q" ["C#"]) =
      .ok ["C++"] := by
  decide +kernel

/-- Names with slugs of their own are read back. -/
theorem tags_read_back_iff_two : ∃ db',
    writeTags Demo.german Demo.lettersOf Demo.longer Demo.noTags .create (.page "p") [" Netz", "DNS"] = .ok db' ∧
      Deduplicated Demo.german [" Netz", "DNS"] (db'.tagNames (.page "p")) := by
  have hslugs :
    ((keptNames Demo.german (.page "p") [" Netz", "DNS"]).map (tagSlug Demo.lettersOf)).Nodup := by decide +kernel
  exact (tags_read_back_iff .create fun _ => rfl).mpr
    ⟨hslugs, fun _ _ _ htag => absurd htag List.not_mem_nil, fun _ _ _ htag => absurd htag List.not_mem_nil⟩

end AdWiki.Wiki
