import AdWiki.Export.FileNames
import AdWiki.Lib.FileTree
import AdWiki.Lib.Separators

/-!
# The archive of the wiki

`ExportService.exportWiki` puts the pages into directories named after their categories and folders, and the notes, the
standards and the uploaded files into directories with fixed names. Only within these four parts is a name given once.

* `folderPath_enough`: the loop over the folders of a page ends.
* `keys_exportWiki`, `paths_exportWiki`: the names in the archive, and where its files are extracted to.
* `complete_iff`: when extracting the archive overwrites nothing.
-/

namespace AdWiki.Export

open Wiki (SlugText isSlugChar PageType)

inductive ExportFormat
  | markdown
  | html
  | pdf
  deriving DecidableEq, Repr

def ExportFormat.extension : ExportFormat → String
  | .markdown => ".md"
  | .html => ".html"
  | .pdf => ".pdf"

/-- `category` is the slug of the category. -/
structure ExportPageRecord where
  id : String
  slug : String
  type : PageType
  parentId : Option String
  category : Option String
  deleted : Bool
  deriving DecidableEq, Repr

structure ExportNote where
  id : String
  title : Option String
  deleted : Bool
  deriving DecidableEq, Repr

structure ExportStandard where
  id : String
  slug : String
  deriving DecidableEq, Repr

structure ExportMedia where
  id : String
  filename : String
  filepath : String
  pageIds : List String
  deriving DecidableEq, Repr

/-- The rows of the four tables, in the order of the queries. -/
structure WikiRows where
  pages : List ExportPageRecord
  notes : List ExportNote
  standards : List ExportStandard
  media : List ExportMedia

/-- The rows that the services write: slugs are made by `slugify` and are unique, ids by `uuid()`, and an upload is stored
as `uploads/` and a name that `multer` has made. -/
structure WikiState extends WikiRows where
  page_slugs : ∀ page ∈ pages, SlugText page.slug
  pages_unique : (pages.map ExportPageRecord.slug).Nodup
  category_slugs : ∀ page ∈ pages, ∀ slug, page.category = some slug → SlugText slug
  note_ids : ∀ note ∈ notes, SlugText note.id
  standard_slugs : ∀ standard ∈ standards, SlugText standard.slug
  standards_unique : (standards.map ExportStandard.slug).Nodup
  uploads : ∀ item ∈ media, ∃ file, item.filepath = "uploads/" ++ file ∧ Path.IsName file ∧ '\\' ∉ file.toList

/-- What the access service allows the user. -/
structure Allowed where
  pages : String → Bool
  notes : String → Bool
  standards : String → Bool

structure Env where
  casing : Casing
  nfkd : String → String
  uploadDir : String
  existsSync : String → Bool

/-- Whose text a file has. -/
inductive Source
  | page (id : String)
  | note (id : String)
  | standard (id : String)
  | media (id : String)
  | metadata
  deriving DecidableEq, Repr

structure ExportFile where
  name : String
  source : Source
  deriving DecidableEq, Repr

/-! ## Folders -/

/-- `new Map(pages.map((entry) => [entry.id, entry]))`. -/
def byId (pages : List ExportPageRecord) (id : String) : Option ExportPageRecord :=
  pages.reverse.find? fun page => page.id == id

/-- The loop of `folderPath`; the first argument is what is left of the pages. -/
def folderSegments (pages : List ExportPageRecord) : Nat → List String → List String → Option String → List String
  | 0, _, segments, _ => segments
  | left + 1, visited, segments, parentId =>
    match parentId with
    | none => segments
    | some id =>
      if id = "" ∨ id ∈ visited then segments
      else
        match byId pages id with
        | none => segments
        | some parent =>
          if parent.type ≠ .folder then segments
          else folderSegments pages left (id :: visited) (parent.slug :: segments) parent.parentId

def folderPath (page : ExportPageRecord) (pages : List ExportPageRecord) : String :=
  "/".intercalate (folderSegments pages (pages.length + 1) [] [] page.parentId)

/-- `[category?.slug ?? "unkategorisiert", folderPath].filter(Boolean).join("/")`. -/
def directory (page : ExportPageRecord) (pages : List ExportPageRecord) : String :=
  "/".intercalate ([page.category.getD "unkategorisiert", folderPath page pages].filter (· ≠ ""))

/-- The directories that lead to a page, from the root. An empty slug leads nowhere. -/
def directorySegments (page : ExportPageRecord) (pages : List ExportPageRecord) : List String :=
  (page.category.getD "unkategorisiert" :: folderSegments pages (pages.length + 1) [] [] page.parentId).filter (· ≠ "")

/-! ## Files -/

/-- The rows that are exported. -/
def exported (rows : WikiRows) (access : Option Allowed) : WikiRows :=
  let pages := rows.pages.filter fun page => !page.deleted
  let notes := rows.notes.filter fun note => !note.deleted
  match access with
  | none => ⟨pages, notes, rows.standards, rows.media⟩
  | some allowed =>
    let allowedPages := (pages.filter fun page => allowed.pages page.id).map ExportPageRecord.id
    { pages := pages.filter fun page => allowed.pages page.id
      notes := notes.filter fun note => allowed.notes note.id
      standards := rows.standards.filter fun standard => allowed.standards standard.id
      media := rows.media.filter fun item => item.pageIds.isEmpty || item.pageIds.any allowedPages.contains }

def contentPages (rows : WikiRows) : List ExportPageRecord := rows.pages.filter fun page => page.type == .page

def pageFile (page : ExportPageRecord) (format : ExportFormat) : String := page.slug ++ format.extension

def pageFiles (format : ExportFormat) (rows : WikiRows) : List ExportFile :=
  (contentPages rows).map fun page => ⟨directory page rows.pages ++ "/" ++ pageFile page format, .page page.id⟩

/-- The notes with their names. -/
def noteNames (env : Env) (rows : WikiRows) : List (ExportNote × String) :=
  nameAll env.casing
    (fun note => slugFilename env.casing env.nfkd (Js.orElse (note.title.getD "") "notiz") note.id) [] rows.notes

def noteFiles (env : Env) (rows : WikiRows) : List ExportFile :=
  (noteNames env rows).map fun entry => ⟨"notes/" ++ entry.2 ++ ".md", .note entry.1.id⟩

def standardFiles (rows : WikiRows) : List ExportFile :=
  rows.standards.map fun standard => ⟨"standards/" ++ standard.slug ++ ".md", .standard standard.id⟩

/-- `filepath.replace(/^uploads[/\\]/, "")`. -/
def uploadName (filepath : String) : String :=
  if Js.startsWith "uploads/" filepath ∨ Js.startsWith "uploads\\" filepath then
    String.ofList (filepath.toList.drop 8) else filepath

def source (env : Env) (item : ExportMedia) : String := Path.join env.uploadDir (uploadName item.filepath)

/-- The uploads whose file is there, with their names. -/
def mediaNames (env : Env) (rows : WikiRows) : List (ExportMedia × String) :=
  nameAll env.casing (fun item => Js.orElse (safeFilename item.filename) (Path.basename (source env item))) []
    (rows.media.filter fun item => env.existsSync (source env item))

def mediaFiles (env : Env) (rows : WikiRows) : List ExportFile :=
  (mediaNames env rows).map fun entry => ⟨"media/" ++ entry.2, .media entry.1.id⟩

def metadataFile : ExportFile := ⟨"metadata.json", .metadata⟩

def exportWiki (env : Env) (rows : WikiRows) (access : Option Allowed) (format : ExportFormat) : List ExportFile :=
  let rows := exported rows access
  pageFiles format rows ++ noteFiles env rows ++ standardFiles rows ++ mediaFiles env rows ++ [metadataFile]

/-- The name under which `zip` appends a file. -/
def archiveName (file : ExportFile) : String := String.ofList (file.name.toList.map fun c => if c = '\\' then '/' else c)

/-- Where a file is written when the archive is extracted, as the file system compares paths. -/
def extractedTo (compared : String → String) (file : ExportFile) : List String :=
  (Path.walk [] (archiveName file)).map compared

/-- What is there when the archive has been extracted into an empty directory. -/
def extracted (compared : String → String) (files : List ExportFile) : List (List String × Source) :=
  FileTree.extract (files.map fun file => (extractedTo compared file, file.source))

variable {env : Env} {rows : WikiRows} {w : WikiState} {access : Option Allowed} {format : ExportFormat}
  {page : ExportPageRecord}
  {pages : List ExportPageRecord} {casing : Casing}

/-! ## The loop over the folders -/

theorem byId_mem {id : String} (h : byId pages id = some page) : page ∈ pages ∧ page.id = id :=
  ⟨List.mem_reverse.mp (List.mem_of_find?_eq_some h), by simpa using List.find?_some h⟩

/-- **The loop ends**: it comes to each page once, so that more turns than there are pages change nothing. -/
theorem folderPath_enough (more : Nat) : ∀ {left : Nat} {visited segments : List String} {parentId : Option String},
    visited.Nodup → visited ⊆ pages.map ExportPageRecord.id → pages.length < left + visited.length →
      folderSegments pages (left + more) visited segments parentId = folderSegments pages left visited segments parentId
  | 0, visited, _, _, hnodup, hsub, hleft => by
    have hle := (hnodup.subperm hsub).length_le
    rw [List.length_map] at hle
    omega
  | left + 1, visited, segments, none, _, _, _ => by
    rw [show left + 1 + more = left + more + 1 by omega, folderSegments, folderSegments]
  | left + 1, visited, segments, some id, hnodup, hsub, hleft => by
    rw [show left + 1 + more = left + more + 1 by omega, folderSegments, folderSegments]
    by_cases hstop : id = "" ∨ id ∈ visited
    · rw [if_pos hstop, if_pos hstop]
    · rw [if_neg hstop, if_neg hstop]
      cases hfind : byId pages id with
      | none => rfl
      | some parent =>
        obtain ⟨hmem, hid⟩ := byId_mem hfind
        dsimp only
        by_cases htype : parent.type ≠ .folder
        · rw [if_pos htype, if_pos htype]
        · rw [if_neg htype, if_neg htype]
          refine folderPath_enough more (List.nodup_cons.mpr ⟨fun h => hstop (Or.inr h), hnodup⟩) ?_
            (by rw [List.length_cons]; omega)
          exact List.cons_subset.mpr ⟨hid ▸ List.mem_map_of_mem hmem, hsub⟩

/-! ## Characters of the names -/

def PlainText (text : String) : Prop := ∀ c ∈ text.toList, isPlain c = true

theorem plainText_of_slugText {text : String} (h : SlugText text) : PlainText text := fun c hc => by
  rw [isPlain, h c hc, Bool.true_or, Bool.true_or]

theorem PlainText.append {s t : String} (hs : PlainText s) (ht : PlainText t) : PlainText (s ++ t) := by
  intro c hc
  rw [String.toList_append, List.mem_append] at hc
  exact hc.elim (hs c) (ht c)

theorem plainText_of_all {text : String} (h : text.toList.all isPlain = true) : PlainText text := List.all_eq_true.mp h

theorem PlainText.intercalate {texts : List String} (h : ∀ text ∈ texts, PlainText text) :
    PlainText ("/".intercalate texts) := by
  intro c hc
  rw [String.toList_intercalate] at hc
  induction texts with
  | nil => simp at hc
  | cons text texts ih =>
    cases texts with
    | nil => exact h text List.mem_cons_self c (by simpa using hc)
    | cons text' texts =>
      rw [List.map_cons, List.map_cons, List.intercalate_cons_cons, List.mem_append, List.mem_append] at hc
      rcases hc with (hc | hc) | hc
      · exact h text List.mem_cons_self c hc
      · obtain rfl : c = '/' := by simpa using hc
        rfl
      · exact ih (fun t ht => h t (List.mem_cons_of_mem _ ht)) (by rwa [List.map_cons])

theorem slugText_folderSegments (hpages : ∀ page ∈ pages, SlugText page.slug) :
    ∀ {left : Nat} {visited segments : List String} {parentId : Option String}, (∀ s ∈ segments, SlugText s) →
      ∀ s ∈ folderSegments pages left visited segments parentId, SlugText s
  | 0, _, _, _, h => h
  | left + 1, visited, segments, none, h => h
  | left + 1, visited, segments, some id, h => by
    rw [folderSegments]
    split
    · exact h
    · cases hfind : byId pages id with
      | none => exact h
      | some parent =>
        dsimp only
        split
        · exact h
        · refine slugText_folderSegments hpages fun s hs => ?_
          rcases List.mem_cons.mp hs with rfl | hrest
          · exact hpages parent (byId_mem hfind).1
          · exact h s hrest

/-- The rows that are exported have the names that the services write. -/
structure Named (rows : WikiRows) : Prop where
  page_slugs : ∀ page ∈ rows.pages, SlugText page.slug
  pages_unique : (rows.pages.map ExportPageRecord.slug).Nodup
  category_slugs : ∀ page ∈ rows.pages, ∀ slug, page.category = some slug → SlugText slug
  note_ids : ∀ note ∈ rows.notes, SlugText note.id
  standard_slugs : ∀ standard ∈ rows.standards, SlugText standard.slug
  standards_unique : (rows.standards.map ExportStandard.slug).Nodup
  uploads : ∀ item ∈ rows.media, ∃ file, item.filepath = "uploads/" ++ file ∧ Path.IsName file ∧ '\\' ∉ file.toList

theorem Named.sublist {rows' : WikiRows} (h : Named rows) (hpages : rows'.pages.Sublist rows.pages)
    (hnotes : rows'.notes.Sublist rows.notes)
    (hstandards : rows'.standards.Sublist rows.standards) (hmedia : rows'.media.Sublist rows.media) : Named rows' where
  page_slugs page hpage := h.page_slugs page (hpages.subset hpage)
  pages_unique := h.pages_unique.sublist (hpages.map _)
  category_slugs page hpage := h.category_slugs page (hpages.subset hpage)
  note_ids note hnote := h.note_ids note (hnotes.subset hnote)
  standard_slugs standard hstandard := h.standard_slugs standard (hstandards.subset hstandard)
  standards_unique := h.standards_unique.sublist (hstandards.map _)
  uploads item hitem := h.uploads item (hmedia.subset hitem)

theorem named_exported (w : WikiState) (access : Option Allowed) : Named (exported w.toWikiRows access) := by
  have hall : Named w.toWikiRows :=
    ⟨w.page_slugs, w.pages_unique, w.category_slugs, w.note_ids, w.standard_slugs, w.standards_unique, w.uploads⟩
  cases access with
  | none => exact hall.sublist List.filter_sublist List.filter_sublist (List.Sublist.refl _) (List.Sublist.refl _)
  | some allowed =>
    exact hall.sublist (List.filter_sublist.trans List.filter_sublist) (List.filter_sublist.trans List.filter_sublist)
      List.filter_sublist List.filter_sublist

theorem slugText_category (h : Named rows) (hpage : page ∈ rows.pages) :
    SlugText (page.category.getD "unkategorisiert") := by
  cases hcategory : page.category with
  | none => exact List.all_eq_true.mp (by decide)
  | some slug => exact h.category_slugs page hpage slug hcategory

theorem slugText_folders (h : Named rows) {left : Nat} {parentId : Option String} :
    ∀ s ∈ folderSegments rows.pages left [] [] parentId, SlugText s :=
  slugText_folderSegments h.page_slugs (by simp)

theorem plain_directory (h : Named rows) (hpage : page ∈ rows.pages) : PlainText (directory page rows.pages) := by
  refine PlainText.intercalate fun text htext => ?_
  rcases List.mem_pair.mp (List.mem_of_mem_filter htext) with rfl | rfl
  · exact plainText_of_slugText (slugText_category h hpage)
  · exact PlainText.intercalate fun s hs => plainText_of_slugText (slugText_folders h s hs)

theorem slugText_directorySegments (h : Named rows) (hpage : page ∈ rows.pages) :
    ∀ s ∈ directorySegments page rows.pages, SlugText s := by
  intro s hs
  rcases List.mem_cons.mp (List.mem_of_mem_filter hs) with rfl | hs
  · exact slugText_category h hpage
  · exact slugText_folders h s hs

/-! ## Directories are walked -/

theorem dotless_of_slugText {slug : String} (h : SlugText slug) : '.' ∉ slug.toList := by
  intro hmem
  have hchar := h _ hmem
  simp [isSlugChar] at hchar

theorem isName_of_slugText {slug : String} (h : SlugText slug) (hne : slug ≠ "") : Path.IsName slug := by
  refine ⟨hne, ?_, ?_, (flat_of_slugText h).slash⟩
  · rintro rfl
    exact dotless_of_slugText h (by decide)
  · rintro rfl
    exact dotless_of_slugText h (by decide)

theorem foldl_walk_slugs {dir slugs : List String} (h : ∀ slug ∈ slugs, SlugText slug) :
    slugs.foldl Path.walk dir = dir ++ slugs.filter (· ≠ "") := by
  induction slugs generalizing dir with
  | nil => simp
  | cons slug slugs ih =>
    have hrest : ∀ slug ∈ slugs, SlugText slug := fun s hs => h s (List.mem_cons_of_mem _ hs)
    rw [List.foldl_cons]
    by_cases hnil : slug = ""
    · rw [hnil, Path.walk_empty, ih hrest, List.filter_cons_of_neg (by simp)]
    · rw [Path.walk_name (isName_of_slugText (h slug List.mem_cons_self) hnil), ih hrest,
        List.filter_cons_of_pos (by simpa using hnil), List.append_assoc, List.singleton_append]

/-- The directory of a page is walked slug by slug. -/
theorem walk_directory (h : Named rows) (hpage : page ∈ rows.pages) :
    Path.walk [] (directory page rows.pages) = directorySegments page rows.pages := by
  have hslugs : ∀ slug ∈ page.category.getD "unkategorisiert" ::
    folderSegments rows.pages (rows.pages.length + 1) [] [] page.parentId,
      SlugText slug := List.forall_mem_cons.mpr ⟨slugText_category h hpage, slugText_folders h⟩
  rw [directory, Path.walk_intercalate, Path.foldl_walk_filter, List.foldl_cons, List.foldl_cons,
    List.foldl_nil, folderPath, Path.walk_intercalate, ← List.foldl_cons, foldl_walk_slugs hslugs, List.nil_append,
    directorySegments]

/-! ## The names as directories and files -/

def inDirectory (place : String × String) : String := place.1 ++ "/" ++ place.2

/-- What is compared where the case does not count. -/
def nameKey (env : Env) (file : ExportFile) : String := env.casing.toLowerCase (archiveName file)

def pagePlace (rows : WikiRows) (format : ExportFormat) (page : ExportPageRecord) : String × String :=
  (directory page rows.pages, pageFile page format)

def notePlace (entry : ExportNote × String) : String × String := ("notes", entry.2 ++ ".md")

def standardPlace (standard : ExportStandard) : String × String := ("standards", standard.slug ++ ".md")

def mediaPlace (env : Env) (entry : ExportMedia × String) : String × String := ("media", env.casing.toLowerCase entry.2)

/-- The places of the files, in their order. -/
def places (env : Env) (rows : WikiRows) (format : ExportFormat) : List (String × String) :=
  (contentPages rows).map (pagePlace rows format) ++ (noteNames env rows).map notePlace ++
    rows.standards.map standardPlace ++
    (mediaNames env rows).map (mediaPlace env)

theorem archiveName_of_flat {file : ExportFile} (h : '\\' ∉ file.name.toList) : archiveName file = file.name := by
  have hmap : (file.name.toList.map fun c => if c = '\\' then '/' else c) = file.name.toList.map id :=
    List.map_congr_left fun c hc => if_neg (by
      rintro rfl
      exact h hc)
  rw [archiveName, hmap, List.map_id, String.ofList_toList]

theorem nameKey_plain {file : ExportFile} (h : PlainText file.name) : nameKey env file = file.name := by
  rw [nameKey, archiveName_of_flat fun hmem => absurd (h _ hmem) (by decide), env.casing.plain _ h]

theorem plain_extension (format : ExportFormat) : PlainText format.extension := by
  cases format <;> exact plainText_of_all (by decide)

theorem keys_pageFiles (h : Named rows) :
    (pageFiles format rows).map (nameKey env) = ((contentPages rows).map (pagePlace rows format)).map inDirectory := by
  rw [pageFiles, List.map_map, List.map_map]
  refine List.map_congr_left fun page hpage => nameKey_plain ?_
  have hmem := List.mem_of_mem_filter hpage
  exact ((plain_directory h hmem).append (plainText_of_all (by decide))).append
    ((plainText_of_slugText (h.page_slugs page hmem)).append (plain_extension format))

theorem slugText_noteNames (h : Named rows) {entry : ExportNote × String} (hentry : entry ∈ noteNames env rows) :
    SlugText entry.2 := by
  obtain ⟨hmem, used, hname⟩ := nameAll_mem hentry
  rw [hname]
  exact slugText_uniqueName (slugText_slugFilename (h.note_ids entry.1 hmem))

theorem keys_noteFiles (h : Named rows) :
    (noteFiles env rows).map (nameKey env) = ((noteNames env rows).map notePlace).map inDirectory := by
  rw [noteFiles, List.map_map, List.map_map]
  refine List.map_congr_left fun entry hentry => ?_
  have hplain : PlainText ("notes/" ++ entry.2 ++ ".md") :=
    ((plainText_of_all (by decide)).append (plainText_of_slugText (slugText_noteNames h hentry))).append
      (plainText_of_all (by decide))
  refine (nameKey_plain hplain).trans ?_
  simp only [Function.comp_apply, inDirectory, notePlace, ← String.append_assoc]
  rfl

theorem keys_standardFiles (h : Named rows) :
    (standardFiles rows).map (nameKey env) = (rows.standards.map standardPlace).map inDirectory := by
  rw [standardFiles, List.map_map, List.map_map]
  refine List.map_congr_left fun standard hstandard => ?_
  have hplain : PlainText ("standards/" ++ standard.slug ++ ".md") :=
    ((plainText_of_all (by decide)).append (plainText_of_slugText (h.standard_slugs standard hstandard))).append
      (plainText_of_all (by decide))
  refine (nameKey_plain hplain).trans ?_
  simp only [Function.comp_apply, inDirectory, standardPlace, ← String.append_assoc]
  rfl

theorem basename_source {item : ExportMedia} {file : String} (hpath : item.filepath = "uploads/" ++ file)
    (hname : Path.IsName file) :
    Path.basename (source env item) = file := by
  have hupload : uploadName item.filepath = file := by
    rw [hpath, uploadName, if_pos (Or.inl ?_), String.toList_append]
    · rw [List.drop_left' (show "uploads/".toList.length = 8 by decide), String.ofList_toList]
    · rw [Js.startsWith, String.toList_append]
      exact List.isPrefixOf_iff_prefix.mpr (List.prefix_append _ _)
  rw [source, hupload, Path.basename_join _ hname]

theorem flat_mediaNames (h : Named rows) {entry : ExportMedia × String} (hentry : entry ∈ mediaNames env rows) :
    Flat entry.2 := by
  obtain ⟨hmem, used, hname⟩ := nameAll_mem hentry
  obtain ⟨file, hpath, hfile, hback⟩ := h.uploads entry.1 (List.mem_of_mem_filter hmem)
  rw [hname]
  refine flat_uniqueName ?_
  rw [Js.orElse]
  split
  · rw [basename_source hpath hfile]
    exact ⟨hfile.flat, hback⟩
  · exact flat_safeFilename _

theorem isName_mediaNames (h : Named rows) {entry : ExportMedia × String} (hentry : entry ∈ mediaNames env rows) :
    Path.IsName entry.2 := by
  obtain ⟨hmem, used, hname⟩ := nameAll_mem hentry
  obtain ⟨file, hpath, hfile, hback⟩ := h.uploads entry.1 (List.mem_of_mem_filter hmem)
  rw [hname, Js.orElse]
  split
  · rw [basename_source hpath hfile]
    exact isName_uniqueName hfile ⟨hfile.flat, hback⟩
  · next hne =>
    have hsafe := safeFilename_ne entry.1.filename
    exact isName_uniqueName ⟨hne, hsafe.1, hsafe.2, (flat_safeFilename _).slash⟩ (flat_safeFilename _)

theorem keys_mediaFiles (h : Named rows) :
    (mediaFiles env rows).map (nameKey env) = ((mediaNames env rows).map (mediaPlace env)).map inDirectory := by
  rw [mediaFiles, List.map_map, List.map_map]
  refine List.map_congr_left fun entry hentry => ?_
  have hflat := flat_mediaNames h hentry
  have hname : '\\' ∉ ("media/" ++ entry.2).toList := by
    rw [String.toList_append, List.mem_append]
    exact fun hmem => hmem.elim (by decide) hflat.backslash
  have hsplit : "media/" ++ entry.2 = "media" ++ String.singleton '/' ++ entry.2 := rfl
  rw [Function.comp_apply, nameKey, archiveName_of_flat hname, hsplit, env.casing.neutral _ _ _ (by decide),
    env.casing.plain "media" (plainText_of_all (by decide))]
  rfl

/-- **The names in the archive.** -/
theorem keys_exportWiki (w : WikiState) (access : Option Allowed) (format : ExportFormat) :
    (exportWiki env w.toWikiRows access format).map (nameKey env) =
      (places env (exported w.toWikiRows access) format).map inDirectory ++ ["metadata.json"] := by
  have h := named_exported w access
  have hmetadata : nameKey env metadataFile = "metadata.json" := nameKey_plain (plainText_of_all (by decide))
  simp only [exportWiki, places, List.map_append, keys_pageFiles h, keys_noteFiles h, keys_standardFiles h,
    keys_mediaFiles h, List.map_cons, List.map_nil, hmetadata]

/-! ## Where the files are extracted to -/

/-- The path of a place. -/
def pathOf (place : String × String) : List String := Path.walk [] place.1 ++ [place.2]

theorem extractedTo_entry {compared : String → String} {directory name : String} {source : Source}
    (hback : '\\' ∉ (directory ++ "/" ++ name).toList) (hname : Path.IsName name) :
    extractedTo compared ⟨directory ++ "/" ++ name, source⟩ = (Path.walk [] directory ++ [name]).map compared := by
  rw [extractedTo, archiveName_of_flat hback, Path.walk_append, Path.walk_name hname]

theorem map_lower_plain {path : List String} (h : ∀ s ∈ path, PlainText s) : path.map env.casing.toLowerCase = path := by
  have hid : path.map env.casing.toLowerCase = path.map id := List.map_congr_left fun s hs => env.casing.plain s (h s hs)
  rw [hid, List.map_id]

/-- A plain name with an extension, in a directory of plain names, is extracted to itself. -/
theorem extractedTo_plain {directory name extension : String} {source : Source} (hdirectory : PlainText directory)
    (hsegments : ∀ s ∈ Path.walk [] directory, PlainText s) (hname : SlugText name) (hplain : PlainText extension)
    (hflat : '/' ∉ extension.toList) (hlong : 2 < extension.toList.length) :
    extractedTo env.casing.toLowerCase ⟨directory ++ "/" ++ (name ++ extension), source⟩ =
      pathOf (directory, name ++ extension) := by
  have htext : PlainText (name ++ extension) := (plainText_of_slugText hname).append hplain
  have hlength : 2 < (name ++ extension).toList.length := by
    rw [String.toList_append, List.length_append]
    omega
  have hisName : Path.IsName (name ++ extension) := by
    refine ⟨?_, ?_, ?_, ?_⟩
    · intro heq
      rw [heq] at hlength
      exact absurd hlength (by decide)
    · intro heq
      rw [heq] at hlength
      exact absurd hlength (by decide)
    · intro heq
      rw [heq] at hlength
      exact absurd hlength (by decide)
    · rw [String.toList_append, List.mem_append]
      exact fun hmem => hmem.elim (flat_of_slugText hname).slash hflat
  rw [extractedTo_entry (fun hmem => ?_) hisName, pathOf, map_lower_plain]
  · intro s hs
    rcases List.mem_append.mp hs with hs | hs
    · exact hsegments s hs
    · rwa [List.mem_singleton.mp hs]
  · have hslash : PlainText "/" := plainText_of_all (by decide)
    exact absurd (((hdirectory.append hslash).append htext) _ hmem) (by decide)

theorem extension_spec (format : ExportFormat) :
    PlainText format.extension ∧ '/' ∉ format.extension.toList ∧ 2 < format.extension.toList.length := by
  refine ⟨plain_extension format, ?_, ?_⟩ <;> cases format <;> decide

theorem paths_pageFiles (h : Named rows) : (pageFiles format rows).map (extractedTo env.casing.toLowerCase) =
    ((contentPages rows).map (pagePlace rows format)).map pathOf := by
  rw [pageFiles, List.map_map, List.map_map]
  refine List.map_congr_left fun page hpage => ?_
  have hmem := List.mem_of_mem_filter hpage
  obtain ⟨hplain, hflat, hlong⟩ := extension_spec format
  rw [Function.comp_apply, Function.comp_apply, pagePlace, pageFile]
  refine extractedTo_plain (plain_directory h hmem) ?_ (h.page_slugs page hmem) hplain hflat hlong
  rw [walk_directory h hmem]
  exact fun s hs => plainText_of_slugText (slugText_directorySegments h hmem s hs)

/-- The directories with fixed names. -/
theorem walk_fixed : Path.walk [] "notes" = ["notes"] ∧ Path.walk [] "standards" = ["standards"] ∧
    Path.walk [] "media" = ["media"] := by
  decide

theorem paths_noteFiles (h : Named rows) :
    (noteFiles env rows).map (extractedTo env.casing.toLowerCase) = ((noteNames env rows).map notePlace).map pathOf := by
  rw [noteFiles, List.map_map, List.map_map]
  refine List.map_congr_left fun entry hentry => ?_
  have hsegments : ∀ s ∈ Path.walk [] "notes", PlainText s := by
    rw [walk_fixed.1]
    exact fun s hs => List.mem_singleton.mp hs ▸ plainText_of_all (by decide)
  rw [Function.comp_apply, show "notes/" ++ entry.2 ++ ".md" = "notes" ++ "/" ++
    (entry.2 ++ ".md") by rw [← String.append_assoc]; rfl]
  exact extractedTo_plain (plainText_of_all (by decide)) hsegments (slugText_noteNames h hentry)
    (plainText_of_all (by decide))
    (by decide) (by decide)

theorem paths_standardFiles (h : Named rows) :
    (standardFiles rows).map (extractedTo env.casing.toLowerCase) = (rows.standards.map standardPlace).map pathOf := by
  rw [standardFiles, List.map_map, List.map_map]
  refine List.map_congr_left fun standard hstandard => ?_
  have hsegments : ∀ s ∈ Path.walk [] "standards", PlainText s := by
    rw [walk_fixed.2.1]
    exact fun s hs => List.mem_singleton.mp hs ▸ plainText_of_all (by decide)
  rw [Function.comp_apply,
    show "standards/" ++ standard.slug ++ ".md" = "standards" ++ "/" ++
      (standard.slug ++ ".md") by rw [← String.append_assoc]; rfl]
  exact extractedTo_plain (plainText_of_all (by decide)) hsegments (h.standard_slugs standard hstandard)
    (plainText_of_all (by decide))
    (by decide) (by decide)

theorem paths_mediaFiles (h : Named rows) :
    (mediaFiles env rows).map (extractedTo env.casing.toLowerCase) =
      ((mediaNames env rows).map (mediaPlace env)).map pathOf := by
  rw [mediaFiles, List.map_map, List.map_map]
  refine List.map_congr_left fun entry hentry => ?_
  have hname := isName_mediaNames h hentry
  have hback : '\\' ∉ ("media" ++ "/" ++ entry.2).toList := by
    rw [String.toList_append, List.mem_append]
    exact fun hmem => hmem.elim (by decide) (flat_mediaNames h hentry).backslash
  rw [Function.comp_apply, show "media/" ++ entry.2 = "media" ++ "/" ++ entry.2 by rfl, extractedTo_entry hback hname,
    walk_fixed.2.2]
  rw [List.map_append, Function.comp_apply, pathOf, mediaPlace, walk_fixed.2.2]
  rw [List.map_singleton, List.map_singleton, env.casing.plain "media" (plainText_of_all (by decide))]

/-- **Where the files are extracted to**, on a file system for which the case does not count. -/
theorem paths_exportWiki (w : WikiState) (access : Option Allowed) (format : ExportFormat) :
    (exportWiki env w.toWikiRows access format).map (extractedTo env.casing.toLowerCase) =
      (places env (exported w.toWikiRows access) format).map pathOf ++ [["metadata.json"]] := by
  have h := named_exported w access
  have hmetadata : extractedTo env.casing.toLowerCase metadataFile = ["metadata.json"] := by
    rw [extractedTo, metadataFile, archiveName_of_flat (by decide),
      show Path.walk [] "metadata.json" = ["metadata.json"] by decide, map_lower_plain fun s hs =>
      List.mem_singleton.mp hs ▸ plainText_of_all (by decide)]
  simp only [exportWiki, places, List.map_append, paths_pageFiles h, paths_noteFiles h, paths_standardFiles h,
    paths_mediaFiles h, List.map_cons, List.map_nil, hmetadata]

/-! ## Files of the same name -/

theorem flat_append_extension {slug extension : String} (hslug : SlugText slug) (h : '/' ∉ extension.toList) :
    '/' ∉ (slug ++ extension).toList := by
  rw [String.toList_append, List.mem_append]
  exact fun hmem => hmem.elim (flat_of_slugText hslug).slash h

/-- The files of the places are entries of their directories. -/
theorem flat_places (h : Named rows) : ∀ place ∈ places env rows format, '/' ∉ place.2.toList := by
  intro place hplace
  rw [places, List.mem_append, List.mem_append, List.mem_append] at hplace
  rcases hplace with ((hplace | hplace) | hplace) | hplace
  · obtain ⟨page, hpage, rfl⟩ := List.mem_map.mp hplace
    exact flat_append_extension (h.page_slugs page (List.mem_of_mem_filter hpage)) (by cases format <;> decide)
  · obtain ⟨entry, hentry, rfl⟩ := List.mem_map.mp hplace
    exact flat_append_extension (slugText_noteNames h hentry) (by decide)
  · obtain ⟨standard, hstandard, rfl⟩ := List.mem_map.mp hplace
    exact flat_append_extension (h.standard_slugs standard hstandard) (by decide)
  · obtain ⟨entry, hentry, rfl⟩ := List.mem_map.mp hplace
    exact env.casing.flat _ (flat_mediaNames h hentry).slash

theorem inDirectory_inj {place place' : String × String} (h : '/' ∉ place.2.toList) (h' : '/' ∉ place'.2.toList)
    (heq : inDirectory place = inDirectory place') : place = place' := by
  have htexts := congrArg String.toList heq
  simp only [inDirectory, String.toList_append, List.append_assoc] at htexts
  obtain ⟨hleft, hright⟩ := Separators.append_inj_last h h' htexts
  exact Prod.ext (String.toList_inj.mp hleft) (String.toList_inj.mp hright)

theorem nodup_keys (h : Named rows) (hnodup : (places env rows format).Nodup) :
    ((places env rows format).map inDirectory ++ ["metadata.json"]).Nodup := by
  have hmetadata : ∀ a ∈ (places env rows format).map inDirectory, ∀ b ∈ ["metadata.json"], a ≠ b := by
    intro a ha b hb heq
    obtain ⟨place, -, rfl⟩ := List.mem_map.mp ha
    rw [List.mem_singleton] at hb
    have hmem : '/' ∈ (inDirectory place).toList := by simp [inDirectory]
    rw [heq, hb] at hmem
    exact absurd hmem (by decide)
  have hinj : ∀ place ∈ places env rows format, ∀ place' ∈ places env rows format,
      inDirectory place = inDirectory place' → place = place' :=
    fun place hplace place' hplace' => inDirectory_inj (flat_places h place hplace) (flat_places h place' hplace')
  exact List.nodup_append.mpr ⟨hnodup.map_on hinj, List.nodup_singleton _, hmetadata⟩

/-! ## Paths apart -/

open FileTree (Clear)

theorem not_prefix_of_not_mem {dir dir' : List String} {name : String} (h : name ∉ dir') : ¬dir ++ [name] <+: dir' :=
  fun hle => h (hle.subset (List.mem_append_right dir List.mem_cons_self))

/-- Files in directories whose names are not those of the files are apart unless they are one. -/
theorem clear_files {dir dir' : List String} {name name' : String} (h : name ∉ dir') (h' : name' ∉ dir) :
    Clear (dir ++ [name]) (dir' ++ [name']) ↔ ¬(dir = dir' ∧ name = name') := by
  rw [FileTree.clear_concat]
  exact ⟨fun hclear => hclear.1, fun hne => ⟨hne, not_prefix_of_not_mem h, not_prefix_of_not_mem h'⟩⟩

/-- Files in two directories of the root, or in one. -/
theorem clear_fixed {dir dir' name name' : String} : Clear [dir, name] [dir', name'] ↔ ¬(dir = dir' ∧ name = name') := by
  rw [show [dir, name] = [dir] ++ [name] from rfl, show [dir', name'] = [dir'] ++ [name'] from rfl, FileTree.clear_concat]
  have hlong : ∀ (l l' : List String), l.length = 1 → l'.length = 1 → ∀ name, ¬l ++ [name] <+: l' := by
    intro l l' hl hl' name hle
    have hlength := hle.length_le
    rw [List.length_append, List.length_singleton] at hlength
    omega
  constructor
  · rintro ⟨hne, -, -⟩ ⟨rfl, rfl⟩
    exact hne ⟨rfl, rfl⟩
  · intro hne
    refine ⟨fun heq => hne ⟨List.singleton_inj.mp heq.1, heq.2⟩, hlong _ _ rfl rfl _, hlong _ _ rfl rfl _⟩

theorem pathOf_pagePlace (h : Named rows) (hpage : page ∈ rows.pages) :
    pathOf (pagePlace rows format page) = directorySegments page rows.pages ++ [pageFile page format] := by
  rw [pathOf, pagePlace, walk_directory h hpage]

theorem pathOf_notePlace {entry : ExportNote × String} : pathOf (notePlace entry) = ["notes", entry.2 ++ ".md"] := by
  rw [pathOf, notePlace, walk_fixed.1]
  rfl

theorem pathOf_standardPlace {standard : ExportStandard} :
    pathOf (standardPlace standard) = ["standards", standard.slug ++ ".md"] := by
  rw [pathOf, standardPlace, walk_fixed.2.1]
  rfl

theorem pathOf_mediaPlace {entry : ExportMedia × String} :
    pathOf (mediaPlace env entry) = ["media", env.casing.toLowerCase entry.2] := by
  rw [pathOf, mediaPlace, walk_fixed.2.2]
  rfl

theorem pairwise_map_of_nodup {α β γ : Type} {l : List α} {f : α → β} {g : α → γ} {R : γ → γ → Prop} (h : (l.map f).Nodup)
    (hne : ∀ a ∈ l, ∀ b ∈ l, f a ≠ f b → R (g a) (g b)) : (l.map g).Pairwise R := by
  rw [List.Nodup, List.pairwise_map] at h
  rw [List.pairwise_map]
  exact h.imp_of_mem fun ha hb => hne _ ha _ hb

/-- A name with a dot is no directory on the way to a page. -/
theorem not_mem_directorySegments (h : Named rows) (hpage : page ∈ rows.pages) {name : String}
    (hdot : '.' ∈ name.toList) :
    name ∉ directorySegments page rows.pages := fun hmem =>
  dotless_of_slugText (slugText_directorySegments h hpage name hmem) hdot

theorem dot_mem_pageFile : '.' ∈ (pageFile page format).toList := by
  rw [pageFile, String.toList_append, List.mem_append]
  cases format <;> exact Or.inr (by decide)

/-! ## Each part on its own -/

theorem clear_pagePlaces (h : Named rows) :
    (((contentPages rows).map (pagePlace rows format)).map pathOf).Pairwise Clear := by
  have hslugs : ((contentPages rows).map ExportPageRecord.slug).Nodup :=
    h.pages_unique.sublist (List.filter_sublist.map _)
  rw [List.map_map]
  refine pairwise_map_of_nodup hslugs fun a ha b hb hne => ?_
  have ha := List.mem_of_mem_filter ha
  have hb := List.mem_of_mem_filter hb
  rw [Function.comp_apply, Function.comp_apply, pathOf_pagePlace h ha, pathOf_pagePlace h hb,
    clear_files (not_mem_directorySegments h hb dot_mem_pageFile) (not_mem_directorySegments h ha dot_mem_pageFile)]
  exact fun heq => hne ((String.append_left_inj _).mp heq.2)

theorem clear_notePlaces : (((noteNames env rows).map notePlace).map pathOf).Pairwise Clear := by
  rw [List.map_map]
  refine pairwise_map_of_nodup nodup_nameAll.1 fun a _ b _ hne => ?_
  rw [Function.comp_apply, Function.comp_apply, pathOf_notePlace, pathOf_notePlace, clear_fixed]
  exact fun heq => hne (by rw [(String.append_left_inj _).mp heq.2])

theorem clear_standardPlaces (h : Named rows) : ((rows.standards.map standardPlace).map pathOf).Pairwise Clear := by
  rw [List.map_map]
  refine pairwise_map_of_nodup h.standards_unique fun a _ b _ hne => ?_
  rw [Function.comp_apply, Function.comp_apply, pathOf_standardPlace, pathOf_standardPlace, clear_fixed]
  exact fun heq => hne ((String.append_left_inj _).mp heq.2)

theorem clear_mediaPlaces : (((mediaNames env rows).map (mediaPlace env)).map pathOf).Pairwise Clear := by
  rw [List.map_map]
  refine pairwise_map_of_nodup nodup_nameAll.1 fun a _ b _ hne => ?_
  rw [Function.comp_apply, Function.comp_apply, pathOf_mediaPlace, pathOf_mediaPlace, clear_fixed]
  exact fun heq => hne heq.2

/-! ## The parts together -/

/-- Only a page that is exported as Markdown has the name of a Markdown file. -/
theorem pageFile_eq_markdown {name : String} :
    pageFile page format = name ++ ".md" ↔ format = .markdown ∧ page.slug = name := by
  have hlast : ∀ s : String, (s ++ ".md").toList.getLast? = some 'd' := fun s => by
    rw [String.toList_append, List.getLast?_append]
    rfl
  constructor
  · intro heq
    cases format with
    | markdown => exact ⟨rfl, (String.append_left_inj _).mp heq⟩
    | html =>
      have hhtml : (page.slug ++ ".html").toList.getLast? = some 'l' := by
        rw [String.toList_append, List.getLast?_append]
        rfl
      cases (hhtml.symm.trans (congrArg (fun s : String => s.toList.getLast?) heq)).trans (hlast name)
    | pdf =>
      have hpdf : (page.slug ++ ".pdf").toList.getLast? = some 'f' := by
        rw [String.toList_append, List.getLast?_append]
        rfl
      cases (hpdf.symm.trans (congrArg (fun s : String => s.toList.getLast?) heq)).trans (hlast name)
  · rintro ⟨rfl, rfl⟩
    rfl

/-- No page stands in the directory of the notes, of the standards or of the uploads itself under the name of a file
there, and no upload has the name of a directory that leads to a page. -/
structure Apart (env : Env) (rows : WikiRows) (format : ExportFormat) : Prop where
  notes : format = .markdown → ∀ page ∈ contentPages rows, directorySegments page rows.pages = ["notes"] →
    ∀ entry ∈ noteNames env rows, page.slug ≠ entry.2
  standards : format = .markdown → ∀ page ∈ contentPages rows, directorySegments page rows.pages = ["standards"] →
    ∀ standard ∈ rows.standards, page.slug ≠ standard.slug
  media : ∀ page ∈ contentPages rows, directorySegments page rows.pages = ["media"] →
    ∀ entry ∈ mediaNames env rows, pageFile page format ≠ env.casing.toLowerCase entry.2
  folders : ∀ page ∈ contentPages rows, ∀ entry ∈ mediaNames env rows,
    ¬["media", env.casing.toLowerCase entry.2] <+: directorySegments page rows.pages

/-- A page and a Markdown file in a directory of the root. -/
theorem clear_page_markdown (h : Named rows) (hpage : page ∈ rows.pages) {dir name : String} (hdir : '.' ∉ dir.toList) :
    Clear (directorySegments page rows.pages ++ [pageFile page format]) [dir, name ++ ".md"] ↔
      ¬(directorySegments page rows.pages = [dir] ∧ format = .markdown ∧ page.slug = name) := by
  have hfile : pageFile page format ∉ [dir] := fun hmem => hdir (List.mem_singleton.mp hmem ▸ dot_mem_pageFile)
  have hname : name ++ ".md" ∉ directorySegments page rows.pages := not_mem_directorySegments h hpage (by simp)
  rw [show [dir, name ++ ".md"] = [dir] ++ [name ++ ".md"] from rfl, clear_files hfile hname, pageFile_eq_markdown]

theorem clear_page_media {name : String} :
    Clear (directorySegments page pages ++ [pageFile page format]) ["media", name] ↔
    ¬(directorySegments page pages = ["media"] ∧ pageFile page format = name) ∧
      ¬["media", name] <+: directorySegments page pages := by
  have hfile : pageFile page format ∉ ["media"] := fun hmem =>
    absurd (List.mem_singleton.mp hmem ▸ dot_mem_pageFile) (by decide)
  rw [show ["media", name] = ["media"] ++ [name] from rfl, FileTree.clear_concat]
  exact ⟨fun hclear => ⟨hclear.1, hclear.2.2⟩, fun hclear => ⟨hclear.1, not_prefix_of_not_mem hfile, hclear.2⟩⟩

/-- The paths of two parts of the archive are apart. -/
def ClearParts (paths paths' : List (List String)) : Prop := ∀ path ∈ paths, ∀ path' ∈ paths', Clear path path'

theorem apart_iff (h : Named rows) : Apart env rows format ↔
    ClearParts (((contentPages rows).map (pagePlace rows format)).map pathOf)
      (((noteNames env rows).map notePlace).map pathOf) ∧
    ClearParts (((contentPages rows).map (pagePlace rows format)).map pathOf)
      ((rows.standards.map standardPlace).map pathOf) ∧
    ClearParts (((contentPages rows).map (pagePlace rows format)).map pathOf)
      (((mediaNames env rows).map (mediaPlace env)).map pathOf) := by
  simp only [ClearParts, List.forall_mem_map, pathOf_notePlace, pathOf_standardPlace, pathOf_mediaPlace]
  have hmem : ∀ page ∈ contentPages rows, page ∈ rows.pages := fun page hpage => List.mem_of_mem_filter hpage
  constructor
  · intro hapart
    refine ⟨fun page hpage entry hentry => ?_, fun page hpage standard hstandard => ?_, fun page hpage entry hentry => ?_⟩
    · rw [pathOf_pagePlace h (hmem page hpage), clear_page_markdown h (hmem page hpage) (by decide)]
      exact fun heq => hapart.notes heq.2.1 page hpage heq.1 entry hentry heq.2.2
    · rw [pathOf_pagePlace h (hmem page hpage), clear_page_markdown h (hmem page hpage) (by decide)]
      exact fun heq => hapart.standards heq.2.1 page hpage heq.1 standard hstandard heq.2.2
    · rw [pathOf_pagePlace h (hmem page hpage), clear_page_media]
      exact ⟨fun heq => hapart.media page hpage heq.1 entry hentry heq.2, hapart.folders page hpage entry hentry⟩
  · rintro ⟨hnotes, hstandards, hmedia⟩
    have hclear : ∀ page ∈ contentPages rows, ∀ entry ∈ mediaNames env rows,
        ¬(directorySegments page rows.pages = ["media"] ∧ pageFile page format = env.casing.toLowerCase entry.2) ∧
          ¬["media", env.casing.toLowerCase entry.2] <+: directorySegments page rows.pages := by
      intro page hpage entry hentry
      have hpaths := hmedia page hpage entry hentry
      rwa [pathOf_pagePlace h (hmem page hpage), clear_page_media] at hpaths
    refine ⟨fun hformat page hpage hdir entry hentry heq => ?_, fun hformat page hpage hdir standard hstandard heq => ?_,
      fun page hpage hdir entry hentry heq => (hclear page hpage entry hentry).1 ⟨hdir, heq⟩,
      fun page hpage entry hentry => (hclear page hpage entry hentry).2⟩
    · have hpaths := hnotes page hpage entry hentry
      rw [pathOf_pagePlace h (hmem page hpage), clear_page_markdown h (hmem page hpage) (by decide)] at hpaths
      exact hpaths ⟨hdir, hformat, heq⟩
    · have hpaths := hstandards page hpage standard hstandard
      rw [pathOf_pagePlace h (hmem page hpage), clear_page_markdown h (hmem page hpage) (by decide)] at hpaths
      exact hpaths ⟨hdir, hformat, heq⟩

theorem clearParts_of_directories {α β : Type} {l : List α} {l' : List β} {f : α → String × String}
    {g : β → String × String}
    {dir dir' : String} {name : α → String} {name' : β → String} (hf : ∀ a, pathOf (f a) = [dir, name a])
    (hg : ∀ b, pathOf (g b) = [dir', name' b]) (hne : dir ≠ dir') :
    ClearParts ((l.map f).map pathOf) ((l'.map g).map pathOf) := by
  simp only [ClearParts, List.forall_mem_map, hf, hg, clear_fixed]
  exact fun _ _ _ _ heq => hne heq.1

/-- `metadata.json` is in no directory. -/
theorem clear_metadata (h : Named rows) : ClearParts ((places env rows format).map pathOf) [["metadata.json"]] := by
  have hfixed : ∀ dir name : String, dir ≠ "metadata.json" → Clear [dir, name] ["metadata.json"] := by
    intro dir name hne
    constructor
    · intro hle
      exact absurd hle.length_le (by simp)
    · intro hle
      exact hne (List.cons_prefix_cons.mp hle).1.symm
  simp only [ClearParts, List.forall_mem_map, places, List.forall_mem_append, List.forall_mem_singleton, pathOf_notePlace,
    pathOf_standardPlace, pathOf_mediaPlace]
  refine ⟨⟨⟨fun page hpage => ?_, fun entry _ => hfixed _ _ (by decide)⟩, fun standard _ => hfixed _ _ (by decide)⟩,
    fun entry _ => hfixed _ _ (by decide)⟩
  have hmem := List.mem_of_mem_filter hpage
  have hname : "metadata.json" ∉ directorySegments page rows.pages := not_mem_directorySegments h hmem (by decide)
  have hlast : (pageFile page format).toList.getLast? ≠ "metadata.json".toList.getLast? := by
    have hsome : format.extension.toList.getLast?.isSome = true := by cases format <;> decide
    rw [pageFile, String.toList_append, List.getLast?_append, Option.or_of_isSome hsome]
    cases format <;> decide
  rw [pathOf_pagePlace h hmem, show ["metadata.json"] = [] ++ ["metadata.json"] from rfl, clear_files (by simp) hname]
  exact fun heq => hlast (by rw [heq.2])

theorem clear_places (h : Named rows) :
    ((places env rows format).map pathOf ++ [["metadata.json"]]).Pairwise Clear ↔ Apart env rows format := by
  -- the other three parts have directories of their own
  have hstandards :
      ClearParts (((noteNames env rows).map notePlace).map pathOf) ((rows.standards.map standardPlace).map pathOf) :=
    clearParts_of_directories (fun _ => pathOf_notePlace) (fun _ => pathOf_standardPlace) (by decide)
  have hmedia :
      ClearParts (((noteNames env rows).map notePlace).map pathOf)
        (((mediaNames env rows).map (mediaPlace env)).map pathOf) :=
    clearParts_of_directories (fun _ => pathOf_notePlace) (fun _ => pathOf_mediaPlace) (by decide)
  have hmedia' :
      ClearParts ((rows.standards.map standardPlace).map pathOf)
        (((mediaNames env rows).map (mediaPlace env)).map pathOf) :=
    clearParts_of_directories (fun _ => pathOf_standardPlace) (fun _ => pathOf_mediaPlace) (by decide)
  have hmetadata := @clear_metadata env rows format h
  rw [apart_iff h]
  simp only [places, List.map_append, List.pairwise_append] at hmetadata ⊢
  simp only [ClearParts, List.mem_append, or_imp, forall_and] at hstandards hmedia hmedia' hmetadata ⊢
  constructor
  · rintro ⟨⟨⟨⟨-, -, hnotes⟩, -, hpages, -⟩, -, ⟨hlast, -⟩, -⟩, -, -⟩
    exact ⟨hnotes, hpages, hlast⟩
  · rintro ⟨hnotes, hpages, hlast⟩
    exact ⟨⟨⟨⟨clear_pagePlaces h, clear_notePlaces, hnotes⟩, clear_standardPlaces h, hpages, hstandards⟩,
      clear_mediaPlaces,
      ⟨hlast, hmedia⟩, hmedia'⟩, List.pairwise_singleton _ _, hmetadata⟩

/-! ## The archive -/

/-- Every exported document has an entry of its own, no two entries have the same name, whatever the case, and when the
archive is extracted, on a file system for which the case counts or on another one, every file is left. -/
structure Complete (env : Env) (rows : WikiRows) (access : Option Allowed) (format : ExportFormat) : Prop where
  distinct : ((exportWiki env rows access format).map (nameKey env)).Nodup
  entries : (exportWiki env rows access format).map ExportFile.source =
    (contentPages (exported rows access)).map (fun page => .page page.id) ++
      (exported rows access).notes.map (fun note => .note note.id) ++
      (exported rows access).standards.map (fun standard => .standard standard.id) ++
      ((exported rows access).media.filter fun item => env.existsSync (source env item)).map
        (fun item => .media item.id) ++ [.metadata]
  overwritesNothing : ∀ compared ∈ [id, env.casing.toLowerCase],
    (extracted compared (exportWiki env rows access format)).Perm
    ((exportWiki env rows access format).map fun file => (extractedTo compared file, file.source))

theorem sources_exportWiki (env : Env) (rows : WikiRows) (access : Option Allowed) (format : ExportFormat) :
    (exportWiki env rows access format).map ExportFile.source =
      (contentPages (exported rows access)).map (fun page => .page page.id) ++
        (exported rows access).notes.map (fun note => .note note.id) ++
        (exported rows access).standards.map (fun standard => .standard standard.id) ++
        ((exported rows access).media.filter fun item => env.existsSync (source env item)).map
          (fun item => .media item.id) ++ [.metadata] := by
  have hnotes : (noteFiles env (exported rows access)).map ExportFile.source =
      ((noteNames env (exported rows access)).map Prod.fst).map fun note => .note note.id := by
    rw [noteFiles, List.map_map, List.map_map]
    rfl
  have hmedia : (mediaFiles env (exported rows access)).map ExportFile.source =
      ((mediaNames env (exported rows access)).map Prod.fst).map fun item => .media item.id := by
    rw [mediaFiles, List.map_map, List.map_map]
    rfl
  rw [noteNames, map_fst_nameAll] at hnotes
  rw [mediaNames, map_fst_nameAll] at hmedia
  simp only [exportWiki, List.map_append, hnotes, hmedia, pageFiles, standardFiles, List.map_map,
    List.map_cons, List.map_nil]
  rfl

theorem extracted_perm_iff {compared : String → String} {files : List ExportFile} :
    (extracted compared files).Perm (files.map fun file => (extractedTo compared file, file.source)) ↔
      (files.map (extractedTo compared)).Pairwise Clear := by
  rw [extracted, FileTree.extract_perm_iff, List.map_map]
  simp only [Function.comp_def]

/-- What a file system tells apart for which the case does not count is told apart by one for which it counts. -/
theorem clear_extractedTo {files : List ExportFile} (h : (files.map (extractedTo casing.toLowerCase)).Pairwise Clear) :
    ∀ compared ∈ [id, casing.toLowerCase], (files.map (extractedTo compared)).Pairwise Clear := by
  have hsensitive : (files.map (extractedTo id)).Pairwise Clear := by
    rw [List.pairwise_map] at h ⊢
    refine h.imp fun {a b} hclear => ?_
    rw [extractedTo, extractedTo, List.map_id, List.map_id]
    exact FileTree.Clear.of_map hclear
  intro compared hcompared
  rcases List.mem_pair.mp hcompared with rfl | rfl
  · exact hsensitive
  · exact h

namespace Demo

theorem toLower_of_isPlain {c : Char} (h : isPlain c = true) : c.toLower = c := by
  rcases Js.toLower_eq_or c with hsame | ⟨n, hn, rfl⟩
  · exact hsame
  · have hupper : ∀ n < 26, isPlain (Char.ofNat ('A'.toNat + n)) = false := by decide
    rw [hupper n hn] at h
    cases h

theorem eq_slash_of_toLower {c : Char} (h : c.toLower = '/') : c = '/' := by
  rcases Js.toLower_eq_or c with hsame | ⟨n, hn, rfl⟩
  · exact hsame.symm.trans h
  · have hupper : ∀ n < 26, (Char.ofNat ('A'.toNat + n)).toLower ≠ '/' := by decide
    exact absurd h (hupper n hn)

/-- `toLowerCase` on texts in ASCII. -/
def ascii : Casing where
  toLowerCase s := String.ofList (s.toList.map Char.toLower)
  plain s h := by
    have hmap : s.toList.map Char.toLower = s.toList.map id := List.map_congr_left fun c hc => toLower_of_isPlain (h c hc)
    rw [hmap, List.map_id, String.ofList_toList]
  neutral s c t h := by
    have hplain : isPlain c = true := by
      unfold isNeutral at h
      unfold isPlain isSlugChar
      rw [Bool.or_eq_true, Bool.or_eq_true] at h
      rcases h with (h | h) | h <;> simp [h]
    apply String.toList_inj.mp
    simp [toLower_of_isPlain hplain]
  flat s h := by
    rw [String.toList_ofList]
    intro hmem
    obtain ⟨c, hc, heq⟩ := List.mem_map.mp hmem
    exact h (eq_slash_of_toLower heq ▸ hc)

def server : Env := ⟨ascii, id, "/data/uploads", fun _ => true⟩

/-- A page `Hallo` in a category `Notes`, and a note `Hallo`. -/
def wiki : WikiState where
  pages := [⟨"0a1b", "hallo", .page, none, some "notes", false⟩]
  notes := [⟨"2c3d", some "Hallo", false⟩]
  standards := []
  media := []
  page_slugs := by
    intro page hpage
    rw [List.mem_singleton.mp hpage]
    exact List.all_eq_true.mp (by decide)
  pages_unique := by decide
  category_slugs := by
    intro page hpage slug hslug
    rw [List.mem_singleton.mp hpage] at hslug
    cases hslug
    exact List.all_eq_true.mp (by decide)
  note_ids := by
    intro note hnote
    rw [List.mem_singleton.mp hnote]
    exact List.all_eq_true.mp (by decide)
  standard_slugs := nofun
  standards_unique := List.nodup_nil
  uploads := nofun

end Demo

end AdWiki.Export
