import AdWiki.Backups.Artifact
import Mathlib

/-!
# Integrity of backup artifacts

The directory that `createLocalBackupArtifact` leaves is one that `verifyBackupDirectory` accepts, and the list of
checksums binds the files it names (`artifact_integrity`).

* `HoldsFiles`: the four files of a directory, by which both halves are stated; the operations on files are lemmas about
  it.
* `parseChecksums_text`, `schema_toJson`: what is written into the two text files is read back.
* `create_cases`: the directory that a creation leaves, and `verify_holds`: such a directory is accepted.
* `verify_ok`: what an accepted directory holds.
-/

namespace AdWiki.Backups

variable {sha : Sha256} {fs fs' : FileSystem} {directory directory' path : String} {file file' : ArtifactFile}
  {content : Bytes} {entries : Directory} {files : ArtifactFile → Option Bytes}

/-! ## The files of a directory -/

/-- The directory holds these of the four files. -/
def HoldsFiles (fs : FileSystem) (directory : String) (files : ArtifactFile → Option Bytes) : Prop :=
  ∃ entries, fs directory = some (.directory entries) ∧ ∀ file, entries.lookup file.name = (files file).map .file

theorem name_injective : Function.Injective ArtifactFile.name := by
  intro file file' h
  cases file <;> cases file' <;> first | rfl | (revert h; decide)

theorem HoldsFiles.empty (h : fs directory = some (.directory [])) : HoldsFiles fs directory fun _ => none :=
  ⟨[], h, fun _ => rfl⟩

theorem HoldsFiles.congr (h : HoldsFiles fs directory files) (hnode : fs' directory' = fs directory) :
    HoldsFiles fs' directory' files := by
  obtain ⟨entries, hentries, hlookup⟩ := h
  exact ⟨entries, hnode.trans hentries, hlookup⟩

theorem HoldsFiles.stat (h : HoldsFiles fs directory files) (hfile : files file = some content) :
    fs.stat directory file = .ok (.file content) := by
  obtain ⟨entries, hentries, hlookup⟩ := h
  simp [FileSystem.stat, FileSystem.entries, hentries, hlookup, hfile, bind, Except.bind]

theorem HoldsFiles.readFile (h : HoldsFiles fs directory files) (hfile : files file = some content) :
    fs.readFile directory file = .ok content := by
  rw [FileSystem.readFile, h.stat hfile]
  rfl

theorem HoldsFiles.of_readFile (h : HoldsFiles fs directory files) (hread : fs.readFile directory file = .ok content) :
    files file = some content := by
  cases hfile : files file with
  | some content' =>
    rw [h.readFile hfile] at hread
    rw [Except.ok.inj hread]
  | none =>
    obtain ⟨entries, hentries, hlookup⟩ := h
    simp [FileSystem.readFile, FileSystem.stat, FileSystem.entries, hentries, hlookup, hfile, bind, Except.bind] at hread

theorem HoldsFiles.sha256File (h : HoldsFiles fs directory files) (hfile : files file = some content) :
    sha256File sha fs directory file = .ok (sha.hex content) := by
  rw [Backups.sha256File, h.readFile hfile]
  rfl

theorem lookup_replace (name : String) (entry : Entry) (entries : Directory) (name' : String) :
    (entries.filter (·.1 ≠ name) ++ [(name, entry)]).lookup name' =
      if name' = name then some entry else entries.lookup name' := by
  induction entries with
  | nil =>
    by_cases h : name' = name
    · simp [h]
    · simp [List.lookup, h, beq_eq_false_iff_ne.mpr h]
  | cons e entries ih =>
    by_cases he : e.1 = name
    · rw [List.filter_cons_of_neg (by simpa using he), ih, ← he, List.lookup_cons]
      split
      · rfl
      · next hne => rw [beq_eq_false_iff_ne.mpr hne]
    · rw [List.filter_cons_of_pos (by simpa using he), List.cons_append, List.lookup_cons, List.lookup_cons, ih]
      by_cases hname : name' = e.1
      · subst hname
        simp [he]
      · rw [beq_eq_false_iff_ne.mpr hname]

/-- A written file is there; the others are as they were, in this directory and in the others. -/
theorem HoldsFiles.write (h : HoldsFiles fs directory files) (file : ArtifactFile) (content : Bytes) :
    ∃ fs', fs.write directory file content = .ok fs' ∧
      HoldsFiles fs' directory (Function.update files file (some content)) ∧
      ∀ path ≠ directory, fs' path = fs path := by
  obtain ⟨entries, hentries, hlookup⟩ := h
  refine ⟨_, by simp only [FileSystem.write, FileSystem.entries, hentries]; rfl, ⟨_, if_pos rfl, fun file' => ?_⟩, ?_⟩
  · rw [lookup_replace, hlookup]
    by_cases heq : file' = file
    · simp [heq]
    · simp [heq, name_injective.ne heq]
  · intro path hne
    exact if_neg hne

theorem HoldsFiles.writeNew (h : HoldsFiles fs directory files) (hnone : files file = none) :
    fs.writeNew directory file content = fs.write directory file content := by
  obtain ⟨entries, hentries, hlookup⟩ := h
  have hfree : entries.lookup file.name = none := by rw [hlookup, hnone]; rfl
  simp [FileSystem.writeNew, FileSystem.entries, hentries, hfree, Fallible.throwIf, bind, Except.bind]

/-! ## The list of checksums -/

theorem trimEnd_append_singleton {text : List Char} {c : Char} (h : Js.isSpace c = false) :
    trimEnd (text ++ [c]) = text ++ [c] := by
  simp [trimEnd, h]

theorem trimEnd_newline (text : List Char) : trimEnd (text ++ ['\n']) = trimEnd text := by
  simp [trimEnd, show Js.isSpace '\n' = true from rfl]

theorem name_last (file : ArtifactFile) : ∃ text c, file.name.toList = text ++ [c] ∧ Js.isSpace c = false := by
  cases file
  · exact ⟨"database.dum".toList, 'p', by decide, by decide⟩
  · exact ⟨"uploads.tar.g".toList, 'z', by decide, by decide⟩
  · exact ⟨"manifest.jso".toList, 'n', by decide, by decide⟩
  · exact ⟨"SHA256SUM".toList, 'S', by decide, by decide⟩

theorem trimEnd_line (hash : String) (file : ArtifactFile) :
    trimEnd (checksumLine hash file).toList = (checksumLine hash file).toList := by
  obtain ⟨text, c, hname, hc⟩ := name_last file
  have hline : (checksumLine hash file).toList = (hash.toList ++ "  ".toList ++ text) ++ [c] := by
    simp [checksumLine, hname]
  rw [hline, trimEnd_append_singleton hc]

theorem requiredFile_name (h : file ∈ REQUIRED_ARTIFACT_FILES) : requiredFile file.name.toList = some file := by
  revert h
  cases file <;> decide

theorem parseLine_line {hash : String} (hhash : isSha256 hash.toList = true) (h : file ∈ REQUIRED_ARTIFACT_FILES) :
    parseLine (checksumLine hash file).toList = some (file, hash) := by
  have hlength : hash.toList.length = 64 := by
    simp only [isSha256, Bool.and_eq_true, beq_iff_eq] at hhash
    exact hhash.1
  have hline : (checksumLine hash file).toList = hash.toList ++ (' ' :: ' ' :: file.name.toList) := by
    simp [checksumLine]
  have htake : (checksumLine hash file).toList.take 64 = hash.toList := by
    rw [hline, List.take_left' hlength]
  have hdrop : (checksumLine hash file).toList.drop 64 = ' ' :: ' ' :: file.name.toList := by
    rw [hline, List.drop_left' hlength]
  have hname : (checksumLine hash file).toList.drop 66 = file.name.toList := by
    rw [show 66 = 64 + 2 from rfl, ← List.drop_drop, hdrop]
    rfl
  rw [parseLine, htake, hdrop, hname, if_pos ⟨hhash, rfl⟩, requiredFile_name h]
  simp

theorem newline_not_mem_line {hash : String} (hhash : isSha256 hash.toList = true) (file : ArtifactFile) :
    '\n' ∉ (checksumLine hash file).toList := by
  have hhex : '\n' ∉ hash.toList := by
    intro hmem
    simp only [isSha256, Bool.and_eq_true, List.all_eq_true] at hhash
    exact absurd (hhash.2 _ hmem) (by decide)
  have hname : '\n' ∉ file.name.toList := by cases file <;> decide
  simp [checksumLine, hhex, hname]

/-- The written list is read back. -/
theorem parseChecksums_text {hash : ArtifactFile → String} (hhash : ∀ file, isSha256 (hash file).toList = true) :
    parseChecksums (checksumText (REQUIRED_ARTIFACT_FILES.map fun file => checksumLine (hash file) file)).toList =
      .ok (REQUIRED_ARTIFACT_FILES.map fun file => (file, hash file)) := by
  have htext : (checksumText (REQUIRED_ARTIFACT_FILES.map fun file => checksumLine (hash file) file)).toList =
      ['\n'].intercalate (REQUIRED_ARTIFACT_FILES.map fun file => (checksumLine (hash file) file).toList) ++ ['\n'] := by
    simp [checksumText, String.toList_intercalate, Function.comp_def]
  have htrim : trimEnd (checksumText (REQUIRED_ARTIFACT_FILES.map fun file => checksumLine (hash file) file)).toList =
      ['\n'].intercalate (REQUIRED_ARTIFACT_FILES.map fun file => (checksumLine (hash file) file).toList) := by
    obtain ⟨text, c, hname, hc⟩ := name_last .manifest
    rw [htext, trimEnd_newline]
    have hlast : ['\n'].intercalate (REQUIRED_ARTIFACT_FILES.map fun file => (checksumLine (hash file) file).toList) =
        ((checksumLine (hash .database) .database).toList ++ '\n' :: ((checksumLine (hash .uploads) .uploads).toList ++
          '\n' :: ((hash .manifest).toList ++ "  ".toList ++ text))) ++ [c] := by
      simp [REQUIRED_ARTIFACT_FILES, checksumLine, hname]
    rw [hlast, trimEnd_append_singleton hc]
  have hlines :
    (['\n'].intercalate (REQUIRED_ARTIFACT_FILES.map fun file => (checksumLine (hash file) file).toList)).splitOn '\n' =
      REQUIRED_ARTIFACT_FILES.map fun file => (checksumLine (hash file) file).toList := by
    refine List.splitOn_intercalate '\n' (fun line hline => ?_) (by simp [REQUIRED_ARTIFACT_FILES])
    obtain ⟨file, -, rfl⟩ := List.mem_map.mp hline
    exact newline_not_mem_line (hhash file) file
  have hadd : ∀ file ∈ REQUIRED_ARTIFACT_FILES, ∀ result : List (ArtifactFile × String), result.lookup file = none →
      addLine result (checksumLine (hash file) file).toList = .ok (result ++ [(file, hash file)]) := by
    intro file hfile result hfree
    simp [addLine, trimEnd_line, parseLine_line (hhash file) hfile, hfree]
  rw [parseChecksums, htrim, hlines]
  simp only [REQUIRED_ARTIFACT_FILES, List.map_cons, List.map_nil, List.foldlM_cons, List.foldlM_nil]
  rw [hadd .database (by decide) [] rfl]
  simp only [bind, Except.bind]
  rw [hadd .uploads (by decide) _ rfl]
  simp only []
  rw [hadd .manifest (by decide) _ rfl]
  rfl

/-! ## The manifest -/

@[simp] theorem get?_object (members : List (String × Json)) (name : String) :
    (Json.object members).get? name = members.reverse.lookup name := rfl

theorem manifestPath?_name (path : ManifestPath) : manifestPath? (.string path.file.name) = some path := by
  cases path <;> decide

theorem schema_file (file : ManifestFile) : ManifestFileSchema file.toJson = some file := by
  simp [ManifestFileSchema, ManifestFile.toJson, strictObject, member?, manifestPath?_name, size?, string?,
    Json.Number.toNat?_ofNat, file.sha256_valid, List.lookup]

theorem mapM_schema (files : List ManifestFile) :
    (files.map ManifestFile.toJson).mapM ManifestFileSchema = some files := by
  induction files with
  | nil => rfl
  | cons file files ih => simp [schema_file, ih]

theorem schema_content (file format : String) :
    contentSchema file format (.object [("file", .string file), ("format", .string format)]) = some () := by
  simp [contentSchema, strictObject, member?, literal, string?, List.lookup]

/-- A printed manifest is read back. -/
theorem schema_toJson (manifest : BackupManifest) : BackupManifestSchema manifest.toJson = some manifest := by
  simp [-List.mapM_map, BackupManifestSchema, BackupManifest.toJson, strictObject, member?, literal, string?, size?,
    items?, List.lookup, Json.Number.toNat?_ofNat, mapM_schema, schema_content, manifest.backupId.valid,
    manifest.createdAt_valid, manifest.files_length]

theorem parse_manifestText (manifest : BackupManifest) :
    (Json.parse (Utf8.decode (Utf8.encode (manifestText manifest)))).bind BackupManifestSchema = some manifest := by
  have hspace : ∀ c ∈ ['\n'], Json.isSpace c = true := by
    intro c hc
    rw [List.mem_singleton.mp hc]
    rfl
  rw [Utf8.decode_encode, manifestText, Json.parse_print _ hspace]
  exact schema_toJson manifest

/-! ## The verifier -/

/-- The files of an artifact. -/
def artifactFiles (dump archive manifest checksums : Bytes) : ArtifactFile → Option Bytes
  | .database => some dump
  | .uploads => some archive
  | .manifest => some manifest
  | .checksums => some checksums

/-- What the manifest says of a file. -/
def fileEntry (sha : Sha256) (path : ManifestPath) (content : Bytes) : ManifestFile :=
  ⟨path, content.length, sha.hex content, sha.valid content⟩

theorem HoldsFiles.describeFile {artifactPath : ManifestPath} (h : HoldsFiles fs directory files)
    (hfile : files artifactPath.file = some content) :
    describeFile sha fs directory artifactPath = .ok (fileEntry sha artifactPath content) := by
  simp [Backups.describeFile, h.stat hfile, h.readFile hfile, noFile, fileEntry, bind, Except.bind, pure, Except.pure]

/-- The manifest of a dump and an archive. -/
def manifestOf (sha : Sha256) (input : ArtifactInput) (dump archive : Bytes) : BackupManifest :=
  ⟨input.backupId, input.now.toISOString, input.createdAt_valid,
    [fileEntry sha .database dump, fileEntry sha .uploads archive], rfl⟩

def manifestBytes (sha : Sha256) (input : ArtifactInput) (dump archive : Bytes) : Bytes :=
  Utf8.encode (manifestText (manifestOf sha input dump archive))

/-- The contents that the list of checksums names. -/
def contentOf (sha : Sha256) (input : ArtifactInput) (dump archive : Bytes) (file : ArtifactFile) : Bytes :=
  (artifactFiles dump archive (manifestBytes sha input dump archive) [] file).getD []

def checksumBytes (sha : Sha256) (input : ArtifactInput) (dump archive : Bytes) : Bytes :=
  Utf8.encode (checksumText (REQUIRED_ARTIFACT_FILES.map fun file =>
    checksumLine (sha.hex (contentOf sha input dump archive file)) file)).toList

/-- The files of the artifact of a dump and an archive. -/
def writtenFiles (sha : Sha256) (input : ArtifactInput) (dump archive : Bytes) : ArtifactFile → Option Bytes :=
  artifactFiles dump archive (manifestBytes sha input dump archive) (checksumBytes sha input dump archive)

variable {input : ArtifactInput} {dump archive : Bytes}

theorem writtenFiles_required (h : file ∈ REQUIRED_ARTIFACT_FILES) :
    writtenFiles sha input dump archive file = some (contentOf sha input dump archive file) := by
  cases file with
  | checksums => exact absurd h (by decide)
  | _ => rfl

theorem lookup_required (hash : ArtifactFile → String) (h : file ∈ REQUIRED_ARTIFACT_FILES) :
    (REQUIRED_ARTIFACT_FILES.map fun file => (file, hash file)).lookup file = some (hash file) := by
  cases file with
  | checksums => exact absurd h (by decide)
  | _ => rfl

/-- An artifact is accepted, where its directory is. -/
theorem verify_holds {allowPartial : Bool} (h : HoldsFiles fs directory (writtenFiles sha input dump archive))
    (hroot : allowPartial = true ∨ Js.endsWith ".partial" directory = false) :
    verifyBackupDirectory sha fs directory allowPartial = .ok (manifestOf sha input dump archive) := by
  have hcheckRoot : checkRoot fs directory allowPartial = .ok () := by
    obtain ⟨entries, hentries, -⟩ := h
    rw [checkRoot, hentries]
    rcases hroot with hroot | hroot <;> simp [Fallible.throwIf, hroot]
  have hfiles : ∀ file, checkFile fs directory file = .ok () := by
    intro file
    obtain ⟨content, hcontent⟩ : ∃ content, writtenFiles sha input dump archive file = some content := by
      cases file <;> exact ⟨_, rfl⟩
    simp [checkFile, h.stat hcontent, noFile, bind, Except.bind]
  have hchecksums : fs.readFile directory .checksums = .ok (checksumBytes sha input dump archive) := h.readFile rfl
  have hparse : parseChecksums (Utf8.decode (checksumBytes sha input dump archive)) =
      .ok (REQUIRED_ARTIFACT_FILES.map fun file => (file, sha.hex (contentOf sha input dump archive file))) := by
    rw [checksumBytes, Utf8.decode_encode]
    exact parseChecksums_text fun file => sha.valid _
  have hsums : ∀ file ∈ REQUIRED_ARTIFACT_FILES, checkChecksum sha fs directory
      (REQUIRED_ARTIFACT_FILES.map fun file => (file, sha.hex (contentOf sha input dump archive file)))
        file = .ok () := by
    intro file hfile
    simp [checkChecksum, h.sha256File (writtenFiles_required hfile), lookup_required _ hfile, Fallible.throwIf,
      bind, Except.bind]
  have hmanifest : readManifest fs directory = .ok (manifestOf sha input dump archive) := by
    have hread : fs.readFile directory .manifest = .ok (manifestBytes sha input dump archive) := h.readFile rfl
    rw [readManifest, hread]
    simp only [bind, Except.bind]
    rw [manifestBytes, parse_manifestText]
  have hentries : ∀ entry ∈ (manifestOf sha input dump archive).files, checkEntry sha fs directory entry = .ok () := by
    intro entry hentry
    have hcases : entry = fileEntry sha .database dump ∨ entry = fileEntry sha .uploads archive := by
      simpa [manifestOf] using hentry
    rcases hcases with rfl | rfl
    · have hdescribe : describeFile sha fs directory .database = .ok (fileEntry sha .database dump) := h.describeFile rfl
      simp [checkEntry, fileEntry, hdescribe, Fallible.throwIf, bind, Except.bind]
    · have hdescribe : describeFile sha fs directory .uploads = .ok (fileEntry sha .uploads archive) := h.describeFile rfl
      simp [checkEntry, fileEntry, hdescribe, Fallible.throwIf, bind, Except.bind]
  have hdistinct : (Js.distinct ((manifestOf sha input dump archive).files.map ManifestFile.path)).length = 2 := rfl
  rw [verifyBackupDirectory, hcheckRoot, hchecksums]
  simp only [bind, Except.bind, Fallible.forM_eq_ok.mpr fun file _ => hfiles file, hparse, Fallible.forM_eq_ok.mpr hsums,
    hmanifest, Fallible.forM_eq_ok.mpr hentries, hdistinct, Fallible.throwIf]
  rfl

/-- What is accepted as a partial directory is accepted under a name that is not partial. -/
theorem verify_congr {allowPartial : Bool} {manifest : BackupManifest} (hnode : fs' directory' = fs directory)
    (h : verifyBackupDirectory sha fs directory true = .ok manifest)
    (hroot : allowPartial = true ∨ Js.endsWith ".partial" directory' = false) :
    verifyBackupDirectory sha fs' directory' allowPartial = .ok manifest := by
  have hentries : fs'.entries directory' = fs.entries directory := by rw [FileSystem.entries, FileSystem.entries, hnode]
  have hstat : fs'.stat directory' = fs.stat directory := by
    funext file
    rw [FileSystem.stat, FileSystem.stat, hentries]
  have hread : fs'.readFile directory' = fs.readFile directory := by
    funext file
    rw [FileSystem.readFile, FileSystem.readFile, hstat]
  have hfile : checkFile fs' directory' = checkFile fs directory := by
    funext file
    rw [checkFile, checkFile, hstat]
  have hchecksum : checkChecksum sha fs' directory' = checkChecksum sha fs directory := by
    funext expected file
    rw [checkChecksum, checkChecksum, sha256File, sha256File, hread]
  have hmanifest : readManifest fs' directory' = readManifest fs directory := by
    rw [readManifest, readManifest, hread]
  have hentry : checkEntry sha fs' directory' = checkEntry sha fs directory := by
    funext entry
    rw [checkEntry, checkEntry, describeFile, describeFile, hstat, hread]
  obtain ⟨_, hcheck, hrest⟩ := Fallible.bind_eq_ok.mp h
  have hcheck' : checkRoot fs' directory' allowPartial = .ok () := by
    unfold checkRoot at hcheck ⊢
    rw [hnode]
    split at hcheck
    · cases hcheck
    · have hdirectory := Fallible.throwIf_eq_ok.mp hcheck
      rw [not_or] at hdirectory
      refine Fallible.throwIf_eq_ok.mpr (not_or.mpr ⟨hdirectory.1, fun habsent => ?_⟩)
      rcases hroot with hroot | hroot
      · rw [hroot] at habsent
        cases habsent.1
      · rw [hroot] at habsent
        cases habsent.2
  rw [verifyBackupDirectory, hfile, hread, hchecksum, hmanifest, hentry]
  exact Fallible.bind_eq_ok.mpr ⟨(), hcheck', hrest⟩

/-! ## The writer -/

theorem mapM_ok {α β : Type} {f : α → Except Failure β} {g : α → β} {l : List α} (h : ∀ a ∈ l, f a = .ok (g a)) :
    l.mapM f = .ok (l.map g) := by
  induction l with
  | nil => rfl
  | cons a l ih =>
    rw [List.mapM_cons, h a List.mem_cons_self, ih fun b hb => h b (List.mem_cons_of_mem _ hb)]
    rfl

/-- When both commands write their files, the partial directory holds the artifact, and what is left is to rename it. -/
theorem fillArtifact_eq (sha : Sha256) (dump archive : Bytes) (h : HoldsFiles fs input.partialDirectory fun _ => none) :
    ∃ fs' size checksum, HoldsFiles fs' input.partialDirectory (writtenFiles sha input dump archive) ∧
      (∀ path ≠ input.partialDirectory, fs' path = fs path) ∧
      fillArtifact sha input ⟨.ok (), some dump, some archive⟩ fs =
        (fs'.rename input.partialDirectory input.finalDirectory).map fun fs'' =>
          (⟨input.finalDirectory, input.directoryName, size, checksum, manifestOf sha input dump archive⟩, fs'') := by
  obtain ⟨fs₁, hwrite₁, h₁, hframe₁⟩ := h.write .database dump
  obtain ⟨fs₂, hwrite₂, h₂, hframe₂⟩ := h₁.write .uploads archive
  obtain ⟨fs₃, hwrite₃, h₃, hframe₃⟩ := h₂.write .manifest (manifestBytes sha input dump archive)
  obtain ⟨fs₄, hwrite₄, h₄, hframe₄⟩ := h₃.write .checksums (checksumBytes sha input dump archive)
  have hfiles : HoldsFiles fs₄ input.partialDirectory (writtenFiles sha input dump archive) := by
    convert h₄ using 1
    funext file
    cases file <;> rfl
  have hlines : checksumLines sha fs₃ input.partialDirectory =
      .ok (REQUIRED_ARTIFACT_FILES.map fun file =>
        checksumLine (sha.hex (contentOf sha input dump archive file)) file) := by
    refine mapM_ok fun file hfile => ?_
    have hcontent :
      Function.update (Function.update (Function.update (fun _ => none) .database (some dump)) .uploads (some archive))
        .manifest (some (manifestBytes sha input dump archive)) file = some (contentOf sha input dump archive file) := by
      cases file with
      | checksums => exact absurd hfile (by decide)
      | _ => rfl
    rw [h₃.sha256File hcontent]
    rfl
  have hsize : ∃ size, sumArtifactSize fs₄ input.partialDirectory = .ok size := by
    refine ⟨0 + dump.length + archive.length + (manifestBytes sha input dump archive).length +
      (checksumBytes sha input dump archive).length, ?_⟩
    have hdatabase : fs₄.readFile input.partialDirectory .database = .ok dump := hfiles.readFile rfl
    have huploads : fs₄.readFile input.partialDirectory .uploads = .ok archive := hfiles.readFile rfl
    have hmanifest : fs₄.readFile input.partialDirectory .manifest = .ok (manifestBytes sha input dump archive) :=
      hfiles.readFile rfl
    have hchecksums : fs₄.readFile input.partialDirectory .checksums = .ok (checksumBytes sha input dump archive) :=
      hfiles.readFile rfl
    simp [sumArtifactSize, BACKUP_ARTIFACT_FILES, REQUIRED_ARTIFACT_FILES, bind, Except.bind, pure, Except.pure,
      hdatabase, huploads, hmanifest, hchecksums]
  obtain ⟨size, hsize⟩ := hsize
  refine ⟨fs₄, size, sha.hex (checksumBytes sha input dump archive), hfiles, fun path hne => ?_, ?_⟩
  · rw [hframe₄ path hne, hframe₃ path hne, hframe₂ path hne, hframe₁ path hne]
  · have hdatabase : describeFile sha fs₂ input.partialDirectory .database = .ok (fileEntry sha .database dump) :=
      h₂.describeFile rfl
    have huploads : describeFile sha fs₂ input.partialDirectory .uploads = .ok (fileEntry sha .uploads archive) :=
      h₂.describeFile rfl
    have hmanifest : fs₂.writeNew input.partialDirectory .manifest (manifestBytes sha input dump archive) = .ok fs₃ := by
      rw [h₂.writeNew rfl, hwrite₃]
    have hchecksums :
        fs₃.writeNew input.partialDirectory .checksums (checksumBytes sha input dump archive) = .ok fs₄ := by
      rw [h₃.writeNew rfl, hwrite₄]
    have hverify : verifyBackupDirectory sha fs₄ input.partialDirectory true = .ok (manifestOf sha input dump archive) :=
      verify_holds hfiles (Or.inl rfl)
    have hchecksum : sha256File sha fs₄ input.partialDirectory .checksums =
        .ok (sha.hex (checksumBytes sha input dump archive)) := hfiles.sha256File rfl
    simp only [fillArtifact, execute, bind, Except.bind, hwrite₁, hwrite₂, hdatabase, huploads]
    rw [show Utf8.encode (manifestText ⟨input.backupId, input.now.toISOString, _, [fileEntry sha .database dump,
      fileEntry sha .uploads archive], rfl⟩) = manifestBytes sha input dump archive from rfl, hmanifest]
    simp only [hlines]
    rw [show Utf8.encode (checksumText (REQUIRED_ARTIFACT_FILES.map fun file =>
      checksumLine (sha.hex (contentOf sha input dump archive file)) file)).toList = checksumBytes sha input dump archive
      from rfl, hchecksums]
    simp only [hverify, hchecksum, hsize]
    cases fs₄.rename input.partialDirectory input.finalDirectory <;> rfl

theorem rename_ok {source target : String} (h : fs.rename source target = .ok fs') : fs' target = fs source := by
  unfold FileSystem.rename at h
  split at h
  · cases h
  · cases h
  · cases h
  · next node hsource _ =>
    rw [hsource, ← Except.ok.inj h]
    exact if_pos rfl
  · next node hsource _ =>
    rw [hsource, ← Except.ok.inj h]
    exact if_pos rfl

theorem mkdir_ok (h : fs.mkdir path = .ok fs') : fs path = none ∧ fs' = fs.set path (some (.directory [])) := by
  unfold FileSystem.mkdir at h
  split at h
  · next hnone => exact ⟨hnone, (Except.ok.inj h).symm⟩
  · cases h

theorem mkdirRecursive_ok (h : fs path ≠ some .other) :
    ∃ fs', fs.mkdirRecursive path = .ok fs' ∧ ∀ path' ≠ path, fs' path' = fs path' := by
  unfold FileSystem.mkdirRecursive
  split
  · exact ⟨_, rfl, fun path' hne => if_neg hne⟩
  · exact ⟨fs, rfl, fun path' _ => rfl⟩
  · next hother => exact absurd hother h

theorem mapError_eq_ok {ε α : Type} {f : ε → ε} {x : Except ε α} {a : α} : x.mapError f = .ok a ↔ x = .ok a := by
  cases x with
  | error e => simp [Except.mapError]
  | ok b => exact Iff.rfl

theorem endsWith_partial {s : String} {c : Char} (h : s.toList.getLast? = some c) (hc : c ≠ 'l') :
    Js.endsWith ".partial" s = false := by
  rw [Js.endsWith, Bool.eq_false_iff]
  intro hsuffix
  obtain ⟨text, htext⟩ := List.isSuffixOf_iff_suffix.mp hsuffix
  rw [← htext, show ".partial".toList = ".partia".toList ++ ['l'] by decide, ← List.append_assoc,
    List.getLast?_concat] at h
  exact hc (Option.some.inj h).symm

section Names

variable (input : ArtifactInput)

theorem mem_timestamp {c : Char} (h : c ∈ input.timestamp.toList) : c.isDigit = true ∨ c = 'T' ∨ c = 'Z' := by
  rw [ArtifactInput.timestamp, String.toList_ofList, List.mem_filter] at h
  obtain ⟨hmem, hkeep⟩ := h
  simp only [ne_eq, decide_eq_true_eq] at hkeep
  simp only [IsoDate.toISOString, String.toList_ofList, List.mem_append, List.mem_cons, List.not_mem_nil,
    or_false] at hmem
  rcases hmem with (hmem | rfl | hmem) | rfl
  · exact (IsoDate.mem_dateText hmem).imp id fun hc => absurd hc hkeep.1
  · exact Or.inr (Or.inl rfl)
  · rcases IsoDate.mem_timeText hmem with hc | hc | hc
    · exact Or.inl hc
    · exact absurd hc hkeep.2.1
    · exact absurd hc hkeep.2.2
  · exact Or.inr (Or.inr rfl)

theorem hexDigit_cases {c : Char} (h : isHexDigit c = true) : c.isAlphanum = true ∧ c ≠ 'l' := by
  simp only [isHexDigit, Bool.or_eq_true, Bool.and_eq_true, decide_eq_true_eq] at h
  simp only [Char.isAlphanum, Char.isAlpha, Char.isLower, Char.isUpper, Char.isDigit, Bool.or_eq_true, Bool.and_eq_true,
    decide_eq_true_eq] at *
  simp only [Char.le_def, ge_iff_le, UInt32.le_iff_toNat_le, ne_eq, Char.ext_iff, ← UInt32.toNat_inj] at *
  simp at *
  omega

theorem mem_directoryName {c : Char} (h : c ∈ input.directoryName.toList) : isArtifactChar c = true := by
  simp only [ArtifactInput.directoryName, String.toList_append, List.mem_append] at h
  rcases h with ((h | h) | h) | h
  · have hall : "ad-wiki-".toList.all isArtifactChar = true := by decide
    exact List.all_eq_true.mp hall c h
  · rcases mem_timestamp input h with hc | rfl | rfl
    · simp [isArtifactChar, Char.isAlphanum, hc]
    · rfl
    · rfl
  · have hall : "-".toList.all isArtifactChar = true := by decide
    exact List.all_eq_true.mp hall c h
  · rcases mem_uuid input.backupId.valid h with hc | rfl
    · simp [isArtifactChar, (hexDigit_cases hc).1]
    · rfl

theorem directoryName_ne {s : String} (h : s.toList.length < 8) : input.directoryName ≠ s := by
  intro heq
  have hlength : input.directoryName.toList.length = s.toList.length := by rw [heq]
  simp only [ArtifactInput.directoryName, String.toList_append, List.length_append] at hlength
  have hprefix : "ad-wiki-".toList.length = 8 := by decide
  omega

theorem isName_directoryName : Path.IsName input.directoryName where
  nonempty := directoryName_ne input (by decide)
  notHere := directoryName_ne input (by decide)
  notUp := directoryName_ne input (by decide)
  flat := fun h => absurd (mem_directoryName input h) (by decide)

theorem isName_partialDirectory : Path.IsName (input.directoryName ++ ".partial") where
  nonempty := by simp
  notHere := by
    intro heq
    have hlength : (input.directoryName ++ ".partial").toList.length = 1 := by rw [heq]; rfl
    simp at hlength
  notUp := by
    intro heq
    have hlength : (input.directoryName ++ ".partial").toList.length = 2 := by rw [heq]; rfl
    simp at hlength
  flat := by
    intro h
    rw [String.toList_append] at h
    rcases List.mem_append.mp h with h | h
    · exact (isName_directoryName input).flat h
    · exact absurd h (by decide)

/-- The last character of a generated name is one of its id. -/
theorem getLast_directoryName : ∃ c, input.directoryName.toList.getLast? = some c ∧ c ≠ 'l' := by
  have hne : input.backupId.text.toList ≠ [] := by
    intro hnil
    have hlength := length_uuid input.backupId.valid
    rw [hnil] at hlength
    cases hlength
  refine ⟨input.backupId.text.toList.getLast hne, ?_, ?_⟩
  · rw [ArtifactInput.directoryName, String.toList_append, List.getLast?_append, List.getLast?_eq_some_getLast hne]
    rfl
  · rcases mem_uuid input.backupId.valid (List.getLast_mem hne) with hc | hc
    · exact (hexDigit_cases hc).2
    · rw [hc]
      decide

theorem finalDirectory_complete : Js.endsWith ".partial" input.finalDirectory = false := by
  obtain ⟨c, hlast, hc⟩ := getLast_directoryName input
  obtain ⟨front, hfront⟩ := Path.join_ends input.destinationDirectory (isName_directoryName input)
  have hend : input.finalDirectory.toList.getLast? = some c := by
    rw [ArtifactInput.finalDirectory, hfront, String.toList_append, List.getLast?_append, hlast]
    rfl
  exact endsWith_partial hend hc

theorem partial_ne_final : input.partialDirectory ≠ input.finalDirectory := by
  intro heq
  have hname := Path.join_injective (isName_partialDirectory input) (isName_directoryName input) heq
  have hlength : (input.directoryName ++ ".partial").toList.length = input.directoryName.toList.length := by rw [hname]
  simp at hlength

end Names

/-- The artifact that a creation leaves. -/
theorem create_cases {commands : Commands} {artifact : CreatedBackupArtifact}
    (h : createLocalBackupArtifact sha input commands fs = .ok (artifact, fs')) :
    ∃ dump archive, artifact.directory = input.finalDirectory ∧ artifact.manifest = manifestOf sha input dump archive ∧
      HoldsFiles fs' input.finalDirectory (writtenFiles sha input dump archive) := by
  obtain ⟨fs₁, -, h⟩ := Fallible.bind_eq_ok.mp h
  obtain ⟨fs₂, hmkdir, h⟩ := Fallible.bind_eq_ok.mp h
  replace h := mapError_eq_ok.mp h
  obtain ⟨environment, pg_dump, tar⟩ := commands
  have hfresh : HoldsFiles fs₂ input.partialDirectory fun _ => none := by
    rw [(mkdir_ok hmkdir).2]
    exact HoldsFiles.empty (if_pos rfl)
  obtain ⟨_, henvironment, hrest⟩ := Fallible.bind_eq_ok.mp h
  obtain rfl : environment = .ok () := henvironment
  obtain ⟨fs₃, hdump, hrest⟩ := Fallible.bind_eq_ok.mp hrest
  obtain ⟨fs₄, harchive, -⟩ := Fallible.bind_eq_ok.mp hrest
  cases pg_dump with
  | none => cases hdump
  | some dump =>
    cases tar with
    | none => cases harchive
    | some archive =>
      obtain ⟨fs₅, size, checksum, hfiles, -, heq⟩ := fillArtifact_eq sha dump archive hfresh
      rw [heq] at h
      obtain ⟨fs₆, hrename, hpair⟩ := Fallible.map_eq_ok h
      cases hpair
      exact ⟨dump, archive, rfl, rfl, hfiles.congr (rename_ok hrename)⟩

/-- Nothing but the commands, or something in the way, makes a creation fail. -/
theorem create_ok (sha : Sha256) (dump archive : Bytes) (hdestination : fs input.destinationDirectory ≠ some .other)
    (habsent : fs input.partialDirectory = none) (hfinal : fs input.finalDirectory = none) :
    ∃ artifact fs', createLocalBackupArtifact sha input ⟨.ok (), some dump, some archive⟩ fs = .ok (artifact, fs') ∧
      artifact.manifest = manifestOf sha input dump archive ∧
      HoldsFiles fs' artifact.directory (writtenFiles sha input dump archive) := by
  obtain ⟨fs₁, hdirectory, hframe⟩ := mkdirRecursive_ok hdestination
  have habsent₁ : fs₁ input.partialDirectory = none :=
    (hframe input.partialDirectory (Path.join_ne (isName_partialDirectory input))).trans habsent
  have hfinal₁ : fs₁ input.finalDirectory = none :=
    (hframe input.finalDirectory (Path.join_ne (isName_directoryName input))).trans hfinal
  have hmkdir : fs₁.mkdir input.partialDirectory = .ok (fs₁.set input.partialDirectory (some (.directory []))) := by
    rw [FileSystem.mkdir, habsent₁]
  have hfresh : HoldsFiles (fs₁.set input.partialDirectory (some (.directory []))) input.partialDirectory fun _ => none :=
    HoldsFiles.empty (if_pos rfl)
  obtain ⟨fs₂, size, checksum, hfiles, hframe₂, heq⟩ := fillArtifact_eq sha dump archive hfresh
  have hne := (partial_ne_final input).symm
  have hfinal₂ : fs₂ input.finalDirectory = none := by
    rw [hframe₂ _ hne, FileSystem.set, if_neg hne, hfinal₁]
  obtain ⟨fs₃, hrename⟩ : ∃ fs₃, fs₂.rename input.partialDirectory input.finalDirectory = .ok fs₃ := by
    obtain ⟨entries, hentries, -⟩ := hfiles
    exact ⟨_, by rw [FileSystem.rename, hentries, hfinal₂]⟩
  refine ⟨⟨input.finalDirectory, input.directoryName, size, checksum, manifestOf sha input dump archive⟩, fs₃, ?_, rfl,
    hfiles.congr (rename_ok hrename)⟩
  · simp only [createLocalBackupArtifact, hdirectory, hmkdir, heq, hrename, bind, Except.bind]
    rfl

/-! ## What an accepted directory holds -/

theorem requiredFile_some {name : List Char} (h : requiredFile name = some file) : file ∈ REQUIRED_ARTIFACT_FILES :=
  List.mem_of_find?_eq_some h

theorem addLine_ok {result result' : List (ArtifactFile × String)} {line : List Char}
    (h : addLine result line = .ok result') :
    ∃ entry : ArtifactFile × String, entry.1 ∈ REQUIRED_ARTIFACT_FILES ∧ result.lookup entry.1 = none ∧
      result' = result ++ [entry] := by
  unfold addLine at h
  split at h
  · cases h
  · next entry hentry =>
    obtain ⟨hfree, hresult⟩ := Fallible.ite_error_eq_ok.mp h
    refine ⟨entry, ?_, Option.not_isSome_iff_eq_none.mp hfree, (Except.ok.inj hresult).symm⟩
    unfold parseLine at hentry
    split at hentry
    · obtain ⟨file, hfile, rfl⟩ := Option.map_eq_some_iff.mp hentry
      exact requiredFile_some hfile
    · cases hentry

theorem not_mem_of_lookup {result : List (ArtifactFile × String)} (h : result.lookup file = none) :
    file ∉ result.map Prod.fst := by
  intro hmem
  obtain ⟨entry, hentry, rfl⟩ := List.mem_map.mp hmem
  exact absurd (List.lookup_eq_none_iff.mp h entry hentry) (by simp)

/-- Every line names another required file. -/
theorem foldlM_addLine {lines : List (List Char)} {result result' : List (ArtifactFile × String)}
    (h : lines.foldlM addLine result = .ok result') (hnodup : (result.map Prod.fst).Nodup)
    (hrequired : result.map Prod.fst ⊆ REQUIRED_ARTIFACT_FILES) :
    (result'.map Prod.fst).Nodup ∧ result'.map Prod.fst ⊆ REQUIRED_ARTIFACT_FILES ∧
      result'.length = result.length + lines.length := by
  induction lines generalizing result with
  | nil =>
    obtain rfl := Except.ok.inj h
    exact ⟨hnodup, hrequired, rfl⟩
  | cons line lines ih =>
    rw [List.foldlM_cons] at h
    obtain ⟨result₁, hadd, hrest⟩ := Fallible.bind_eq_ok.mp h
    obtain ⟨entry, hentry, hfree, rfl⟩ := addLine_ok hadd
    have hnodup₁ : ((result ++ [entry]).map Prod.fst).Nodup := by
      rw [List.map_append, List.nodup_append']
      exact ⟨hnodup, List.nodup_singleton _, List.disjoint_singleton.mpr (not_mem_of_lookup hfree)⟩
    have hrequired₁ : (result ++ [entry]).map Prod.fst ⊆ REQUIRED_ARTIFACT_FILES := by
      rw [List.map_append]
      exact List.append_subset.mpr ⟨hrequired, by simpa using hentry⟩
    obtain ⟨hnodup', hrequired', hlength⟩ := ih hrest hnodup₁ hrequired₁
    exact ⟨hnodup', hrequired', by rw [hlength, List.length_append, List.length_cons]; simp; omega⟩

/-- An accepted list has one line for every required file, and no other. -/
theorem parseChecksums_ok {text : List Char} {expected : List (ArtifactFile × String)}
    (h : parseChecksums text = .ok expected) :
    (expected.map Prod.fst).Perm REQUIRED_ARTIFACT_FILES ∧ ((trimEnd text).splitOn '\n').length = 3 := by
  obtain ⟨result, hfold, h⟩ := Fallible.bind_eq_ok.mp h
  obtain ⟨hlength, h⟩ := Fallible.throwIf_bind_eq_ok.mp h
  obtain rfl := Fallible.pure_eq_ok.mp h
  obtain ⟨hnodup, hrequired, hlines⟩ := foldlM_addLine hfold List.nodup_nil (List.nil_subset _)
  have hthree : result.length = REQUIRED_ARTIFACT_FILES.length := not_not.mp hlength
  refine ⟨(hnodup.subperm hrequired).perm_of_length_le (by rw [List.length_map, hthree]), ?_⟩
  rw [hthree] at hlines
  simpa [REQUIRED_ARTIFACT_FILES] using hlines.symm

theorem verify_ok {allowPartial : Bool} {manifest : BackupManifest}
    (h : verifyBackupDirectory sha fs directory allowPartial = .ok manifest) :
    ∃ checksums expected, fs.readFile directory .checksums = .ok checksums ∧
      parseChecksums (Utf8.decode checksums) = .ok expected ∧
      ∀ file ∈ REQUIRED_ARTIFACT_FILES, ∃ content, fs.readFile directory file = .ok content ∧
        expected.lookup file = some (sha.hex content) := by
  obtain ⟨_, -, h⟩ := Fallible.bind_eq_ok.mp h
  obtain ⟨_, -, h⟩ := Fallible.bind_eq_ok.mp h
  obtain ⟨checksums, hchecksums, h⟩ := Fallible.bind_eq_ok.mp h
  obtain ⟨expected, hexpected, h⟩ := Fallible.bind_eq_ok.mp h
  obtain ⟨_, hsums, -⟩ := Fallible.bind_eq_ok.mp h
  refine ⟨checksums, expected, hchecksums, hexpected, fun file hfile => ?_⟩
  obtain ⟨actual, hactual, hequal⟩ := Fallible.bind_eq_ok.mp (Fallible.forM_eq_ok.mp hsums file hfile)
  obtain ⟨content, hcontent, rfl⟩ := Fallible.map_eq_ok hactual
  exact ⟨content, hcontent, not_not.mp (Fallible.throwIf_eq_ok.mp hequal)⟩

/-! ## Integrity -/

/-- The contents of the required files. -/
def contents (fs : FileSystem) (directory : String) : Set Bytes :=
  {content | ∃ file ∈ REQUIRED_ARTIFACT_FILES, fs.readFile directory file = .ok content}

/-- No two contents of the two directories have one hash. -/
def CollisionFree (sha : Sha256) (fs : FileSystem) (directory : String) (fs' : FileSystem) (directory' : String) : Prop :=
  Set.InjOn sha.hex (contents fs directory ∪ contents fs' directory')

/-- Two accepted directories with one list of checksums have the same files. -/
theorem verify_binds {allowPartial allowPartial' : Bool} {manifest manifest' : BackupManifest}
    (h : verifyBackupDirectory sha fs directory allowPartial = .ok manifest)
    (h' : verifyBackupDirectory sha fs' directory' allowPartial' = .ok manifest')
    (hsame : fs'.readFile directory' .checksums = fs.readFile directory .checksums)
    (hfree : CollisionFree sha fs directory fs' directory') :
    ∀ file ∈ REQUIRED_ARTIFACT_FILES, fs'.readFile directory' file = fs.readFile directory file := by
  obtain ⟨checksums, expected, hchecksums, hexpected, hfiles⟩ := verify_ok h
  obtain ⟨checksums', expected', hchecksums', hexpected', hfiles'⟩ := verify_ok h'
  obtain rfl : checksums' = checksums := by
    rw [hsame, hchecksums] at hchecksums'
    exact (Except.ok.inj hchecksums').symm
  obtain rfl : expected' = expected := by
    rw [hexpected] at hexpected'
    exact (Except.ok.inj hexpected').symm
  intro file hfile
  obtain ⟨content, hcontent, hhash⟩ := hfiles file hfile
  obtain ⟨content', hcontent', hhash'⟩ := hfiles' file hfile
  have hequal : sha.hex content' = sha.hex content := Option.some.inj (hhash'.symm.trans hhash)
  have hmem : content ∈ contents fs directory ∪ contents fs' directory' := Or.inl ⟨file, hfile, hcontent⟩
  have hmem' : content' ∈ contents fs directory ∪ contents fs' directory' := Or.inr ⟨file, hfile, hcontent'⟩
  rw [hcontent, hcontent', hfree hmem' hmem hequal]

/-- The directory of a creation is accepted, and a creation fails only where a command does or something is in the way. A
directory that is accepted with the checksums of another holds the same files, and one that differs in a required file is
rejected. -/
theorem artifact_integrity (sha : Sha256) :
    (∀ input commands fs artifact fs', createLocalBackupArtifact sha input commands fs = .ok (artifact, fs') →
      verifyBackupDirectory sha fs' artifact.directory false = .ok artifact.manifest) ∧
    (∀ (input : ArtifactInput) (dump archive : Bytes) (fs : FileSystem), fs input.destinationDirectory ≠ some .other →
      fs input.partialDirectory = none → fs input.finalDirectory = none →
      ∃ artifact fs', createLocalBackupArtifact sha input ⟨.ok (), some dump, some archive⟩ fs = .ok (artifact, fs') ∧
        fs'.readFile artifact.directory .database = .ok dump ∧ fs'.readFile artifact.directory .uploads = .ok archive) ∧
    (∀ fs directory allowPartial manifest fs' directory' allowPartial',
      verifyBackupDirectory sha fs directory allowPartial = .ok manifest →
      fs'.readFile directory' .checksums = fs.readFile directory .checksums →
      CollisionFree sha fs directory fs' directory' →
      (∀ manifest', verifyBackupDirectory sha fs' directory' allowPartial' = .ok manifest' →
        ∀ file ∈ REQUIRED_ARTIFACT_FILES, fs'.readFile directory' file = fs.readFile directory file) ∧
      ((∃ file ∈ REQUIRED_ARTIFACT_FILES, fs'.readFile directory' file ≠ fs.readFile directory file) →
        ∃ failure, verifyBackupDirectory sha fs' directory' allowPartial' = .error failure)) ∧
    ∀ fs directory allowPartial manifest, verifyBackupDirectory sha fs directory allowPartial = .ok manifest →
      ∃ checksums expected, fs.readFile directory .checksums = .ok checksums ∧
        parseChecksums (Utf8.decode checksums) = .ok expected ∧ (expected.map Prod.fst).Perm REQUIRED_ARTIFACT_FILES ∧
        ((trimEnd (Utf8.decode checksums)).splitOn '\n').length = 3 := by
  refine ⟨fun input commands fs artifact fs' h => ?_, fun input dump archive fs hdestination habsent hfinal => ?_,
    fun fs directory allowPartial manifest fs' directory' allowPartial' h hsame hfree => ⟨fun manifest' h' => ?_, ?_⟩,
    fun fs directory allowPartial manifest h => ?_⟩
  · obtain ⟨dump, archive, hdirectory, hmanifest, hfiles⟩ := create_cases h
    rw [hdirectory, hmanifest]
    exact verify_holds hfiles (Or.inr (finalDirectory_complete input))
  · obtain ⟨artifact, fs', hcreate, -, hfiles⟩ := create_ok sha dump archive hdestination habsent hfinal
    exact ⟨artifact, fs', hcreate, hfiles.readFile rfl, hfiles.readFile rfl⟩
  · exact verify_binds h h' hsame hfree
  · rintro ⟨file, hfile, hne⟩
    cases hverify : verifyBackupDirectory sha fs' directory' allowPartial' with
    | error failure => exact ⟨failure, rfl⟩
    | ok manifest' => exact absurd (verify_binds h hverify hsame hfree file hfile) hne
  · obtain ⟨checksums, expected, hchecksums, hexpected, -⟩ := verify_ok h
    obtain ⟨hperm, hlines⟩ := parseChecksums_ok hexpected
    exact ⟨checksums, expected, hchecksums, hexpected, hperm, hlines⟩

/-! ### An artifact, and one with another dump -/

def sampleDump : Bytes := [80, 71, 68, 77, 80]

def sampleArchive : Bytes := [31, 139, 8]

/-- The digests of the dump, the archive, the dump with a byte more, and the manifest. -/
def sampleSha : Sha256 where
  hex content :=
    if content = sampleDump then "b5a26a21290c39819235a235b8ed66b3bd98ed90c8316c8949bfbb7419cac878"
    else if content = sampleArchive then "baa89858c7e545390273530ba63c61b94c2e09d38c28b0a0311bfa7bde396181"
    else if content = sampleDump ++ [0] then "53cb9e177c2ca3ffbee85c1bdcd006f47694299812f634d7bf334705a9949f83"
    else "83c1911fa7eaaa4e2231a7ca08aeabbc6f2e152f0300746ca6d9d64a1f78f135"
  valid content := by
    split
    · decide
    · split
      · decide
      · split <;> decide

def sampleInput : ArtifactInput where
  backupId := ⟨"3f2504e0-4f89-41d3-9a0c-0305e82c3301", by decide⟩
  destinationDirectory := "/backups/nas"
  now := ⟨2026, 1, 2, 3, 4, 5, 6, by decide, by decide⟩

/-- The contents whose digests are told apart from all others. -/
def isSample (content : Bytes) : Prop := content = sampleDump ∨ content = sampleArchive ∨ content = sampleDump ++ [0]

theorem sampleSha_known {content content' : Bytes} (h : isSample content)
    (heq : sampleSha.hex content = sampleSha.hex content') :
    content' = content := by
  have hcases : isSample content' ∨
      sampleSha.hex content' = "83c1911fa7eaaa4e2231a7ca08aeabbc6f2e152f0300746ca6d9d64a1f78f135" := by
    by_cases hsample : isSample content'
    · exact Or.inl hsample
    · simp only [isSample, not_or] at hsample
      exact Or.inr (by simp [sampleSha, hsample])
  rcases hcases with hsample | hother
  · rcases h with rfl | rfl | rfl <;> rcases hsample with rfl | rfl | rfl <;> first | rfl | exact absurd heq (by decide)
  · rw [hother] at heq
    rcases h with rfl | rfl | rfl <;> exact absurd heq (by decide)

theorem sampleSha_injOn (manifest : Bytes) :
    Set.InjOn sampleSha.hex {content | isSample content ∨ content = manifest} := by
  rintro content (h | rfl) content' h' heq
  · exact (sampleSha_known h heq).symm
  · rcases h' with h' | rfl
    · exact sampleSha_known h' heq.symm
    · rfl

theorem artifact_integrity_sample :
    ∃ artifact fs fs' failure,
      createLocalBackupArtifact sampleSha sampleInput ⟨.ok (), some sampleDump, some sampleArchive⟩
        (fun _ => none) = .ok (artifact, fs) ∧
      verifyBackupDirectory sampleSha fs artifact.directory false = .ok artifact.manifest ∧
      fs.write artifact.directory .database (sampleDump ++ [0]) = .ok fs' ∧
      verifyBackupDirectory sampleSha fs' artifact.directory false = .error failure := by
  obtain ⟨hproduced, hsucceeds, hbinds, -⟩ := artifact_integrity sampleSha
  obtain ⟨artifact, fs, hcreate, hdump, harchive⟩ :=
    hsucceeds sampleInput sampleDump sampleArchive (fun _ => none) (by simp) rfl rfl
  have hverify := hproduced _ _ _ _ _ hcreate
  obtain ⟨dump, archive, hdirectory, -, hfiles⟩ := create_cases hcreate
  rw [← hdirectory] at hfiles
  obtain rfl : dump = sampleDump := Option.some.inj (hfiles.of_readFile hdump)
  obtain rfl : archive = sampleArchive := Option.some.inj (hfiles.of_readFile harchive)
  obtain ⟨fs', hwrite, hfiles', -⟩ := hfiles.write .database (sampleDump ++ [0])
  have hfree : CollisionFree sampleSha fs artifact.directory fs' artifact.directory := by
    refine (sampleSha_injOn (manifestBytes sampleSha sampleInput sampleDump sampleArchive)).mono ?_
    rintro content (⟨file, hfile, hcontent⟩ | ⟨file, hfile, hcontent⟩)
    · have hwritten := hfiles.of_readFile hcontent
      cases file with
      | database => exact Or.inl (Or.inl (Option.some.inj hwritten).symm)
      | uploads => exact Or.inl (Or.inr (Or.inl (Option.some.inj hwritten).symm))
      | manifest => exact Or.inr (Option.some.inj hwritten).symm
      | checksums => exact absurd hfile (by decide)
    · have hwritten := hfiles'.of_readFile hcontent
      cases file with
      | database => exact Or.inl (Or.inr (Or.inr (Option.some.inj hwritten).symm))
      | uploads => exact Or.inl (Or.inr (Or.inl (Option.some.inj hwritten).symm))
      | manifest => exact Or.inr (Option.some.inj hwritten).symm
      | checksums => exact absurd hfile (by decide)
  obtain ⟨failure, hfailure⟩ := (hbinds fs artifact.directory false _ fs' artifact.directory false hverify
    (by rw [hfiles.readFile rfl, hfiles'.readFile rfl]) hfree).2 ⟨.database, by decide, by
      rw [hfiles.readFile rfl, hfiles'.readFile rfl]
      decide⟩
  exact ⟨artifact, fs, fs', failure, hcreate, hverify, hwrite, hfailure⟩

end AdWiki.Backups
