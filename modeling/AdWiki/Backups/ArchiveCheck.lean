import AdWiki.Backups.Artifact

/-!
# The archive of a restore

Before the archive of the uploads is unpacked, `verifyNativeArchives` looks at two listings of it that `tar` prints: the
names, and the same with the types. The runner keeps the first mebibyte of what a program prints.

* `verifyNativeArchives_ok`: which archives are accepted, by the entries whose lines begin within this limit.
* `safe_of_short`: where both listings are within the limit, nothing but the name `/` escapes the check.
* `unsafe_archive_refused_iff`: which archives the check is right about.
* `entry_past_limit`: a parent directory that comes after a mebibyte of names.
-/

namespace AdWiki.Backups

open Fallible Utf8

/-! ## The runner -/

def MAX_COMMAND_OUTPUT_BYTES : Nat := 1024 * 1024

/-- The chunks that are kept, and the bytes that have come. -/
structure Output where
  chunks : List Bytes
  bytes : Nat

/-- `child.stdout.on("data", …)` -/
def Output.add (limit : Nat) (output : Output) (chunk : Bytes) : Output where
  chunks := if output.bytes < limit then output.chunks ++ [chunk] else output.chunks
  bytes := output.bytes + chunk.length

/-- `Buffer.concat(stdout).subarray(0, limit).toString("utf8")` -/
def collect (limit : Nat) (chunks : List Bytes) : List Char :=
  decode (((chunks.foldl (Output.add limit) ⟨[], 0⟩).chunks.flatten).take limit)

/-- What a program prints when it ends with code 0, in chunks. -/
abbrev System := String → List String → Option (List Bytes)

abbrev CommandRunner := String → List String → Option (List Char)

def runCommand (system : System) : CommandRunner := fun command args =>
  (system command args).map (collect MAX_COMMAND_OUTPUT_BYTES)

/-! ## The checks -/

/-- `listing.split("\n").filter(Boolean)` -/
def listingLines (listing : List Char) : List (List Char) := (listing.splitOn '\n').filter (· ≠ [])

/-- `.replace(/^\.\//, "")` -/
def withoutDot : List Char → List Char
  | '.' :: '/' :: rest => rest
  | entry => entry

/-- `.replace(/\/$/, "")` -/
def withoutSlash (entry : List Char) : List Char := if entry.getLast? = some '/' then entry.dropLast else entry

def isUnsafeEntry (rawEntry : List Char) : Bool :=
  let entry := withoutSlash (withoutDot rawEntry)
  entry ≠ [] && (entry.head? == some '/' || entry.contains '\\' || entry.contains (Char.ofNat 0) ||
    (entry.splitOn '/').any fun segment => segment == [] || segment == ['.'] || segment == ['.', '.'])

def validateArchiveListing (listing : List Char) : Except Failure Unit :=
  (listingLines listing).forM fun rawEntry => throwIf (isUnsafeEntry rawEntry)
    (.operation "UPLOAD_ARCHIVE_UNSAFE" "Das Upload-Archiv enthält einen unsicheren Pfad.")

def validateArchiveTypes (listing : List Char) : Except Failure Unit :=
  (listingLines listing).forM fun entry => throwIf (entry.head? ≠ some '-' ∧ entry.head? ≠ some 'd')
    (.operation "UPLOAD_ARCHIVE_UNSAFE" "Das Upload-Archiv enthält Links oder einen unzulässigen Dateityp.")

section Verify

variable (postgresEnvironment : Except Failure Unit) (execute : CommandRunner) (backupDirectory : String)

def databaseFile : String := Path.join backupDirectory ArtifactFile.database.name

def uploadsFile : String := Path.join backupDirectory ArtifactFile.uploads.name

def listArguments : List String :=
  ["--list", "--gzip", "--quoting-style=escape", "--file=" ++ uploadsFile backupDirectory]

def verboseArguments : List String :=
  ["--list", "--verbose", "--gzip", "--quoting-style=escape", "--file=" ++ uploadsFile backupDirectory]

/-- `postgresEnvironment` is the outcome of the call of this name. -/
def verifyNativeArchives : Except Failure Unit := do
  postgresEnvironment
  let _ ← ofOption (execute "pg_restore" ["--list", databaseFile backupDirectory])
    (.operation "DATABASE_DUMP_INVALID" "Der PostgreSQL-Dump ist nicht lesbar.")
  let listing ← ofOption (execute "tar" (listArguments backupDirectory))
    (.operation "UPLOAD_ARCHIVE_INVALID" "Das Upload-Archiv ist nicht lesbar.")
  validateArchiveListing listing
  let verboseListing ← ofOption (execute "tar" (verboseArguments backupDirectory))
    (.operation "UPLOAD_ARCHIVE_INVALID" "Die Dateitypen im Upload-Archiv sind nicht lesbar.")
  validateArchiveTypes verboseListing

end Verify

/-! ## Archives -/

inductive EntryType
  | regular
  | directory
  | hardLink
  | symbolicLink
  | characterDevice
  | blockDevice
  | fifo
  | contiguous
  | volumeLabel
  | continuation
  | unknown
  deriving DecidableEq, Repr

/-- The letter with which `tar` begins a verbose line. -/
def EntryType.letter : EntryType → Char
  | .regular => '-'
  | .directory => 'd'
  | .hardLink => 'h'
  | .symbolicLink => 'l'
  | .characterDevice => 'c'
  | .blockDevice => 'b'
  | .fifo => 'p'
  | .contiguous => 'C'
  | .volumeLabel => 'V'
  | .continuation => 'M'
  | .unknown => '?'

/-- An entry with its name as it is stored; `details` is what `tar` prints of it in a verbose line, after the type. -/
structure ArchiveEntry where
  name : List Char
  type : EntryType
  details : List Char
  oneLine : '\n' ∉ details

abbrev Archive := List ArchiveEntry

/-- `--quoting-style=escape`: a name is printed as it is, unless it has characters that need a backslash. -/
structure Escapes (escape : List Char → List Char) : Prop where
  oneLine : ∀ name, '\n' ∉ escape name
  quoted : ∀ name, escape name = name ∨ '\\' ∈ escape name

def nameLines (escape : List Char → List Char) (archive : Archive) : List (List Char) :=
  archive.map fun entry => escape entry.name

def verboseLines (archive : Archive) : List (List Char) := archive.map fun entry => entry.type.letter :: entry.details

/-- One line for each entry. -/
def printed (lines : List (List Char)) : List Char := lines.flatMap (· ++ ['\n'])

/-- What `tar` prints of an archive, in chunks of any lengths. -/
structure Lists (system : System) (backupDirectory : String) (escape : List Char → List Char)
    (archive : Archive) : Prop where
  names : ∃ chunks, system "tar" (listArguments backupDirectory) = some chunks ∧
    chunks.flatten = encode (printed (nameLines escape archive))
  types : ∃ chunks, system "tar" (verboseArguments backupDirectory) = some chunks ∧
    chunks.flatten = encode (printed (verboseLines archive))

/-- A relative path without a segment for the parent directory, of a regular file or a directory. -/
structure ArchiveEntry.Safe (entry : ArchiveEntry) : Prop where
  relative : entry.name.head? ≠ some '/'
  noParent : ['.', '.'] ∉ entry.name.splitOn '/'
  plain : entry.type = .regular ∨ entry.type = .directory

/-! ## What is kept of an output -/

variable {limit n k : Nat} {chunks : List Bytes} {line text : List Char} {lines : List (List Char)}

/-- The runner keeps the beginning of the output, however it comes. -/
theorem collect_eq : collect limit chunks = decode (chunks.flatten.take limit) := by
  have hfold : ∀ (chunks : List Bytes) (output : Output) (before : Bytes), output.bytes = before.length →
      output.chunks.flatten.take limit = before.take limit →
      ((chunks.foldl (Output.add limit) output).chunks.flatten).take limit = (before ++ chunks.flatten).take limit := by
    intro chunks
    induction chunks with
    | nil =>
      intro output before _ hkept
      rw [List.foldl_nil, hkept, List.flatten_nil, List.append_nil]
    | cons chunk chunks ih =>
      intro output before hbytes hkept
      have hnext : (output.add limit chunk).chunks.flatten.take limit = (before ++ chunk).take limit := by
        unfold Output.add
        by_cases hroom : output.bytes < limit
        · rw [if_pos hroom, List.flatten_append, List.flatten_singleton]
          have hlength : output.chunks.flatten = before := by
            have hshort : before.length < limit := by omega
            have hbefore : before.take limit = before := List.take_of_length_le (by omega)
            rw [hbefore] at hkept
            have hlong := congrArg List.length hkept
            rw [List.length_take] at hlong
            rwa [List.take_of_length_le (by omega)] at hkept
          rw [hlength]
        · rw [if_neg hroom, hkept, List.take_append_of_le_length (by omega)]
      have hall := ih (output.add limit chunk) (before ++ chunk) (by rw [List.length_append, ← hbytes]; rfl) hnext
      rw [List.foldl_cons, hall, List.flatten_cons, List.append_assoc]
  rw [collect, hfold chunks ⟨[], 0⟩ [] rfl rfl, List.nil_append]

/-- The bytes before a line. -/
def start (lines : List (List Char)) (k : Nat) : Nat := ((lines.take k).map fun line => size line + 1).sum

/-- The lines that begin within the limit, the last of them cut. -/
def seen : Nat → List (List Char) → List (List Char)
  | _, [] => []
  | n, line :: lines => if n = 0 then [] else cut n line :: seen (n - (size line + 1)) lines

theorem size_line : size (line ++ ['\n']) = size line + 1 := by
  rw [size_append]
  rfl

theorem not_mem_cut (h : '\n' ∉ line) : '\n' ∉ cut n line := by
  intro hmem
  rcases mem_cut hmem with hmem | heq
  · exact h hmem
  · exact absurd heq (by decide)

theorem listingLines_cut (hlines : ∀ line ∈ lines, '\n' ∉ line) :
    listingLines (cut n (printed lines)) = (seen n lines).filter (· ≠ []) := by
  unfold listingLines printed
  induction lines generalizing n with
  | nil => simp [cut, seen, List.splitOn_nil]
  | cons line lines ih =>
    obtain ⟨hline, hrest⟩ := List.forall_mem_cons.mp hlines
    rw [List.flatMap_cons, seen]
    by_cases hzero : n = 0
    · rw [if_pos hzero, hzero, cut_zero, List.splitOn_nil]
      rfl
    rw [if_neg hzero]
    by_cases hfits : size line + 1 ≤ n
    · rw [cut_append (by rw [size_line]; exact hfits), size_line, List.append_assoc, List.singleton_append,
        List.splitOn_append_cons_self_of_not_mem hline, List.filter_cons, List.filter_cons, ih hrest,
          cut_of_size_le (by omega)]
    · have hcut : cut n (line ++ ['\n'] ++ lines.flatMap (· ++ ['\n'])) = cut n line := by
        rw [List.append_assoc, cut_append_of_le (by omega)]
      have hnone : n - (size line + 1) = 0 := by omega
      have hend : seen 0 lines = [] := by
        cases lines with
        | nil => rfl
        | cons => rw [seen, if_pos rfl]
      rw [hcut, List.splitOn_eq_singleton (not_mem_cut hline), hnone, hend]

theorem mem_seen :
    text ∈ seen n lines ↔ ∃ k line, lines[k]? = some line ∧ start lines k < n ∧ text = cut (n - start lines k) line := by
  induction lines generalizing n with
  | nil => simp [seen]
  | cons first lines ih =>
    have hstart : ∀ k, start (first :: lines) (k + 1) = size first + 1 + start lines k := fun k => by
      simp [start]
    rw [seen]
    by_cases hzero : n = 0
    · rw [if_pos hzero]
      simp [hzero]
    rw [if_neg hzero, List.mem_cons, ih]
    constructor
    · rintro (rfl | ⟨k, line, hk, hlt, rfl⟩)
      · exact ⟨0, first, rfl, Nat.pos_of_ne_zero hzero, rfl⟩
      · refine ⟨k + 1, line, hk, ?_, ?_⟩
        · rw [hstart]
          omega
        · rw [hstart, Nat.sub_sub]
    · rintro ⟨k, line, hk, hlt, rfl⟩
      cases k with
      | zero =>
        cases hk
        exact Or.inl rfl
      | succ k =>
        rw [hstart] at hlt ⊢
        exact Or.inr ⟨k, line, hk, by omega, by rw [Nat.sub_sub]⟩

/-- A check of the lines that are kept, by the entries. -/
theorem forall_listingLines {P : List Char → Prop} (hlines : ∀ line ∈ lines, '\n' ∉ line) :
    (∀ text ∈ listingLines (cut n (printed lines)), P text) ↔
      ∀ k line, lines[k]? = some line → start lines k < n → cut (n - start lines k) line ≠ [] →
        P (cut (n - start lines k) line) := by
  rw [listingLines_cut hlines]
  simp only [List.mem_filter, mem_seen, ne_eq, decide_eq_true_eq]
  constructor
  · intro h k line hk hlt hne
    exact h _ ⟨⟨k, line, hk, hlt, rfl⟩, hne⟩
  · rintro h text ⟨⟨k, line, hk, hlt, rfl⟩, hne⟩
    exact h k line hk hlt hne

/-! ## What is refused -/

variable {escape : List Char → List Char} {archive : Archive} {entry : ArchiveEntry} {system : System}
  {backupDirectory : String}
  {postgresEnvironment : Except Failure Unit} {name : List Char}

/-- The line of the entry begins within the limit, and what is kept of it is refused. -/
def NameRefused (escape : List Char → List Char) (archive : Archive) (k : Nat) (entry : ArchiveEntry) : Prop :=
  start (nameLines escape archive) k < MAX_COMMAND_OUTPUT_BYTES ∧
    isUnsafeEntry (cut (MAX_COMMAND_OUTPUT_BYTES - start (nameLines escape archive) k) (escape entry.name)) = true

def TypeRefused (archive : Archive) (k : Nat) (entry : ArchiveEntry) : Prop :=
  start (verboseLines archive) k < MAX_COMMAND_OUTPUT_BYTES ∧ entry.type ≠ .regular ∧ entry.type ≠ .directory

/-- `pg_restore` reads the dump. -/
def DumpReadable (postgresEnvironment : Except Failure Unit) (system : System) (backupDirectory : String) : Prop :=
  postgresEnvironment = .ok () ∧ (system "pg_restore" ["--list", databaseFile backupDirectory]).isSome

theorem validateArchiveListing_ok {listing : List Char} :
    validateArchiveListing listing = .ok () ↔ ∀ text ∈ listingLines listing, isUnsafeEntry text = false := by
  unfold validateArchiveListing
  simp only [forM_eq_ok, throwIf_eq_ok, Bool.not_eq_true]

theorem validateArchiveTypes_ok {listing : List Char} : validateArchiveTypes listing = .ok () ↔
    ∀ text ∈ listingLines listing, text.head? = some '-' ∨ text.head? = some 'd' := by
  unfold validateArchiveTypes
  simp only [forM_eq_ok, throwIf_eq_ok, ne_eq, not_and_or, not_not]

theorem letter_plain {type : EntryType} :
    (type.letter = '-' ∨ type.letter = 'd') ↔ type = .regular ∨ type = .directory := by
  cases type <;> decide

/-- The first letter of a verbose line is kept where the line begins within the limit. -/
theorem cut_verbose (h : n ≠ 0) (type : EntryType) (details : List Char) :
    ∃ rest, cut n (type.letter :: details) = type.letter :: rest := by
  have hone : (units type.letter.toNat).length = 1 := by cases type <;> decide
  rw [cut, hone, if_pos (by omega)]
  exact ⟨_, rfl⟩

theorem runCommand_lists (h : Lists system backupDirectory escape archive) :
    runCommand system "tar" (listArguments backupDirectory) =
        some (cut MAX_COMMAND_OUTPUT_BYTES (printed (nameLines escape archive))) ∧
      runCommand system "tar" (verboseArguments backupDirectory) =
        some (cut MAX_COMMAND_OUTPUT_BYTES (printed (verboseLines archive))) := by
  obtain ⟨chunks, hchunks, hnames⟩ := h.names
  obtain ⟨chunks', hchunks', htypes⟩ := h.types
  unfold runCommand
  rw [hchunks, hchunks', Option.map_some, Option.map_some, collect_eq, collect_eq, hnames, htypes,
    decode_take, decode_take]
  exact ⟨rfl, rfl⟩

/-- The archives that are accepted. -/
theorem verifyNativeArchives_ok (hescape : Escapes escape) (hlists : Lists system backupDirectory escape archive) :
    verifyNativeArchives postgresEnvironment (runCommand system) backupDirectory = .ok () ↔
      DumpReadable postgresEnvironment system backupDirectory ∧
      ∀ k entry, archive[k]? = some entry → ¬NameRefused escape archive k entry ∧ ¬TypeRefused archive k entry := by
  obtain ⟨hnames, htypes⟩ := runCommand_lists hlists
  have hnameLines : ∀ line ∈ nameLines escape archive, '\n' ∉ line := by
    intro line hline
    obtain ⟨entry, -, rfl⟩ := List.mem_map.mp hline
    exact hescape.oneLine entry.name
  have hverboseLines : ∀ line ∈ verboseLines archive, '\n' ∉ line := by
    intro line hline
    obtain ⟨entry, -, rfl⟩ := List.mem_map.mp hline
    have hletter : entry.type.letter ≠ '\n' := by cases entry.type <;> decide
    exact List.not_mem_cons_of_ne_of_not_mem hletter.symm entry.oneLine
  have hlisting : validateArchiveListing (cut MAX_COMMAND_OUTPUT_BYTES (printed (nameLines escape archive))) = .ok () ↔
      ∀ k entry, archive[k]? = some entry → ¬NameRefused escape archive k entry := by
    rw [validateArchiveListing_ok, forall_listingLines hnameLines]
    constructor
    · rintro h k entry hk ⟨hlt, hrefused⟩
      have hline : (nameLines escape archive)[k]? = some (escape entry.name) := by
        rw [nameLines, List.getElem?_map, hk, Option.map_some]
      rw [h k _ hline hlt (fun hnil => by rw [hnil] at hrefused; cases hrefused)] at hrefused
      cases hrefused
    · intro h k line hk hlt _
      rw [nameLines, List.getElem?_map] at hk
      obtain ⟨entry, hentry, rfl⟩ := Option.map_eq_some_iff.mp hk
      have hnot := h k entry hentry
      unfold NameRefused at hnot
      simpa [hlt] using hnot
  have htyping : validateArchiveTypes (cut MAX_COMMAND_OUTPUT_BYTES (printed (verboseLines archive))) = .ok () ↔
      ∀ k entry, archive[k]? = some entry → ¬TypeRefused archive k entry := by
    rw [validateArchiveTypes_ok, forall_listingLines hverboseLines]
    constructor
    · rintro h k entry hk ⟨hlt, hregular, hdirectory⟩
      have hline : (verboseLines archive)[k]? = some (entry.type.letter :: entry.details) := by
        rw [verboseLines, List.getElem?_map, hk, Option.map_some]
      obtain ⟨rest, hrest⟩ := cut_verbose (n := MAX_COMMAND_OUTPUT_BYTES - start (verboseLines archive) k) (by omega)
        entry.type entry.details
      have hhead := h k _ hline hlt (by rw [hrest]; exact List.cons_ne_nil _ _)
      rw [hrest, List.head?_cons, Option.some.injEq, Option.some.injEq, letter_plain] at hhead
      rcases hhead with htype | htype
      · exact hregular htype
      · exact hdirectory htype
    · intro h k line hk hlt _
      rw [verboseLines, List.getElem?_map] at hk
      obtain ⟨entry, hentry, rfl⟩ := Option.map_eq_some_iff.mp hk
      obtain ⟨rest, hrest⟩ := cut_verbose (n := MAX_COMMAND_OUTPUT_BYTES - start (verboseLines archive) k) (by omega)
        entry.type entry.details
      rw [hrest, List.head?_cons, Option.some.injEq, Option.some.injEq, letter_plain]
      by_contra hneither
      obtain ⟨hregular, hdirectory⟩ := not_or.mp hneither
      exact h k entry hentry ⟨hlt, hregular, hdirectory⟩
  unfold verifyNativeArchives
  rw [hnames, htypes]
  constructor
  · intro h
    obtain ⟨_, henvironment, h⟩ := bind_eq_ok.mp h
    obtain ⟨out, hdump, h⟩ := bind_eq_ok.mp h
    obtain ⟨listing, hlist, h⟩ := bind_eq_ok.mp h
    cases ofOption_eq_ok.mp hlist
    obtain ⟨_, hfirst, h⟩ := bind_eq_ok.mp h
    obtain ⟨verbose, hverbose, hsecond⟩ := bind_eq_ok.mp h
    cases ofOption_eq_ok.mp hverbose
    have hsome := ofOption_eq_ok.mp hdump
    unfold runCommand at hsome
    obtain ⟨chunks, hchunks, -⟩ := Option.map_eq_some_iff.mp hsome
    refine ⟨⟨henvironment, by rw [hchunks]; rfl⟩, fun k entry hk => ?_⟩
    exact ⟨hlisting.mp hfirst k entry hk, htyping.mp hsecond k entry hk⟩
  · rintro ⟨⟨henvironment, hdump⟩, hall⟩
    obtain ⟨chunks, hchunks⟩ := Option.isSome_iff_exists.mp hdump
    have hread : runCommand system "pg_restore" ["--list", databaseFile backupDirectory] =
        some (collect MAX_COMMAND_OUTPUT_BYTES chunks) := by rw [runCommand, hchunks, Option.map_some]
    refine bind_eq_ok.mpr ⟨(), henvironment, bind_eq_ok.mpr ⟨_, ofOption_eq_ok.mpr hread, bind_eq_ok.mpr ⟨_,
      ofOption_eq_ok.mpr rfl, bind_eq_ok.mpr ⟨(), hlisting.mpr fun k entry hk => (hall k entry hk).1,
      bind_eq_ok.mpr ⟨_, ofOption_eq_ok.mpr rfl, htyping.mpr fun k entry hk => (hall k entry hk).2⟩⟩⟩⟩⟩

/-! ## Unsafe names -/

theorem mem_withoutDot {c : Char} (hdot : c ≠ '.') (hslash : c ≠ '/') (h : c ∈ name) : c ∈ withoutDot name := by
  unfold withoutDot
  split
  · next rest =>
    rcases List.mem_cons.mp h with heq | h
    · exact absurd heq hdot
    · rcases List.mem_cons.mp h with heq | h
      · exact absurd heq hslash
      · exact h
  · exact h

theorem mem_withoutSlash {c : Char} (hslash : c ≠ '/') (h : c ∈ name) : c ∈ withoutSlash name := by
  unfold withoutSlash
  split
  · next hlast =>
    obtain ⟨front, rfl⟩ : ∃ front, name = front ++ ['/'] :=
      ⟨name.dropLast, (List.dropLast_append_getLast? '/' hlast).symm⟩
    rw [List.dropLast_concat]
    rcases List.mem_append.mp h with h | h
    · exact h
    · exact absurd (List.mem_singleton.mp h) hslash
  · exact h

/-- A parent directory is one of the segments that are left. -/
theorem parent_left (h : ['.', '.'] ∈ name.splitOn '/') : ['.', '.'] ∈ (withoutSlash (withoutDot name)).splitOn '/' := by
  have hdot : ['.', '.'] ∈ (withoutDot name).splitOn '/' := by
    unfold withoutDot
    split
    · next rest =>
      have hsplit : ('.' :: '/' :: rest).splitOn '/' = ['.'] :: rest.splitOn '/' :=
        List.splitOn_append_cons_self_of_not_mem (by decide : '/' ∉ ['.']) rest
      rw [hsplit] at h
      rcases List.mem_cons.mp h with heq | h
      · exact absurd heq (by decide)
      · exact h
    · exact h
  unfold withoutSlash
  split
  · next hlast =>
    obtain ⟨front, hfront⟩ : ∃ front, withoutDot name = front ++ ['/'] :=
      ⟨_, (List.dropLast_append_getLast? '/' hlast).symm⟩
    rw [hfront, List.splitOn_append_cons_self, List.splitOn_nil] at hdot
    rw [hfront, List.dropLast_concat]
    rcases List.mem_append.mp hdot with hdot | hdot
    · exact hdot
    · exact absurd (List.mem_singleton.mp hdot) (by decide)
  · exact hdot

/-- An unsafe name is refused where it is printed whole; the name of the root is the one that is not. -/
theorem isUnsafeEntry_escape (hescape : Escapes escape) (hroot : name ≠ ['/'])
    (hforbidden : name.head? = some '/' ∨ ['.', '.'] ∈ name.splitOn '/') : isUnsafeEntry (escape name) = true := by
  have hbackslash : ∀ text : List Char, '\\' ∈ text → isUnsafeEntry text = true := by
    intro text htext
    have hmem := mem_withoutSlash (by decide) (mem_withoutDot (by decide) (by decide) htext)
    have hcontains := List.contains_iff_mem.mpr hmem
    simp [isUnsafeEntry, List.ne_nil_of_mem hmem, hmem]
  rcases hescape.quoted name with hsame | hquoted
  · rw [hsame]
    rcases hforbidden with hhead | hparent
    · cases name with
      | nil => cases hhead
      | cons c rest =>
        obtain rfl : c = '/' := Option.some.inj hhead
        have hrest : rest ≠ [] := fun hnil => hroot (by rw [hnil])
        have hdot : withoutDot ('/' :: rest) = '/' :: rest := rfl
        obtain ⟨rest', hslash⟩ : ∃ rest', withoutSlash ('/' :: rest) = '/' :: rest' := by
          unfold withoutSlash
          split
          · exact ⟨rest.dropLast, List.dropLast_cons_of_ne_nil hrest⟩
          · exact ⟨rest, rfl⟩
        simp [isUnsafeEntry, hdot, hslash]
    · have hleft := parent_left hparent
      have hne : withoutSlash (withoutDot name) ≠ [] := by
        intro hnil
        rw [hnil, List.splitOn_nil] at hleft
        exact absurd hleft (by decide)
      have hany : ((withoutSlash (withoutDot name)).splitOn '/').any
          (fun segment => segment == [] || segment == ['.'] || segment == ['.', '.']) = true :=
        List.any_eq_true.mpr ⟨_, hleft, by decide⟩
      unfold isUnsafeEntry
      dsimp only
      rw [hany, Bool.or_true, Bool.and_true]
      exact decide_eq_true hne
  · exact hbackslash _ hquoted

/-- The lines of a listing end within its size. -/
theorem start_lt_size {line : List Char} (hk : lines[k]? = some line) :
    start lines k + size line < size (printed lines) := by
  induction lines generalizing k with
  | nil => cases hk
  | cons line' lines ih =>
    have hsize : size (printed (line' :: lines)) = size line' + 1 + size (printed lines) := by
      rw [printed, List.flatMap_cons, size_append, size_line]
      rfl
    cases k with
    | zero =>
      have heq : line' = line := Option.some.inj hk
      have hstart : start (line' :: lines) 0 = 0 := rfl
      rw [hsize, hstart, heq]
      omega
    | succ k =>
      have hstart : start (line' :: lines) (k + 1) = size line' + 1 + start lines k := by simp [start]
      have hrest := ih hk
      rw [hsize, hstart]
      omega

/-- Where the listings are within the limit, an archive that is accepted is safe but for the name of the root. -/
theorem safe_of_short (hescape : Escapes escape) (hlists : Lists system backupDirectory escape archive)
    (hnames : size (printed (nameLines escape archive)) ≤ MAX_COMMAND_OUTPUT_BYTES)
    (htypes : size (printed (verboseLines archive)) ≤ MAX_COMMAND_OUTPUT_BYTES)
    (hroot : ∀ entry ∈ archive, entry.name ≠ ['/'])
    (h : verifyNativeArchives postgresEnvironment (runCommand system) backupDirectory = .ok ()) :
    ∀ entry ∈ archive, entry.Safe := by
  intro entry hentry
  obtain ⟨k, hk⟩ := List.mem_iff_getElem?.mp hentry
  obtain ⟨hname, htype⟩ := ((verifyNativeArchives_ok hescape hlists).mp h).2 k entry hk
  have hline : (nameLines escape archive)[k]? = some (escape entry.name) := by
    rw [nameLines, List.getElem?_map, hk, Option.map_some]
  have hverbose : (verboseLines archive)[k]? = some (entry.type.letter :: entry.details) := by
    rw [verboseLines, List.getElem?_map, hk, Option.map_some]
  have hend := start_lt_size hline
  have hend' := start_lt_size hverbose
  have hwhole : isUnsafeEntry (escape entry.name) = false := by
    by_contra hrefused
    refine hname ⟨by omega, ?_⟩
    rw [cut_of_size_le (by omega)]
    simpa using hrefused
  have hsafe : ¬(entry.name.head? = some '/' ∨ ['.', '.'] ∈ entry.name.splitOn '/') := by
    intro hforbidden
    rw [isUnsafeEntry_escape hescape (hroot entry hentry) hforbidden] at hwhole
    cases hwhole
  refine ⟨fun hhead => hsafe (Or.inl hhead), fun hparent => hsafe (Or.inr hparent), ?_⟩
  by_contra hneither
  obtain ⟨hregular, hdirectory⟩ := not_or.mp hneither
  exact htype ⟨by omega, hregular, hdirectory⟩

/-- The check is right about an archive. -/
theorem unsafe_archive_refused_iff (postgresEnvironment : Except Failure Unit) (system : System)
    (backupDirectory : String)
    (escape : List Char → List Char) (archive : Archive) (hescape : Escapes escape)
    (hlists : Lists system backupDirectory escape archive) :
    (verifyNativeArchives postgresEnvironment (runCommand system) backupDirectory = .ok () →
      ∀ entry ∈ archive, entry.Safe) ↔
      ¬DumpReadable postgresEnvironment system backupDirectory ∨
      ∀ entry ∈ archive, ¬entry.Safe →
        ∃ k refused, archive[k]? = some refused ∧
          (NameRefused escape archive k refused ∨ TypeRefused archive k refused) := by
  rw [verifyNativeArchives_ok hescape hlists]
  constructor
  · intro h
    by_cases hdump : DumpReadable postgresEnvironment system backupDirectory
    · refine Or.inr fun entry hentry hforbidden => ?_
      by_contra hnone
      refine hforbidden (h ⟨hdump, fun k refused hk => ⟨fun hrefused => hnone ⟨k, refused, hk, Or.inl hrefused⟩,
        fun hrefused => hnone ⟨k, refused, hk, Or.inr hrefused⟩⟩⟩ entry hentry)
    · exact Or.inl hdump
  · rintro (hdump | hcaught) ⟨hread, hall⟩ entry hentry
    · exact absurd hread hdump
    · by_contra hforbidden
      obtain ⟨k, refused, hk, hrefused | hrefused⟩ := hcaught entry hentry hforbidden
      · exact (hall k refused hk).1 hrefused
      · exact (hall k refused hk).2 hrefused

namespace ArchiveDemo

/-- What `--quoting-style=escape` makes of a name. -/
def quoteChar (c : Char) : List Char := if c = '\n' then ['\\', 'n'] else if c = '\\' then ['\\', '\\'] else [c]

def quoteName (name : List Char) : List Char := name.flatMap quoteChar

theorem quoteName_escapes : Escapes quoteName where
  oneLine name h := by
    obtain ⟨c, -, hc⟩ := List.mem_flatMap.mp h
    unfold quoteChar at hc
    split at hc
    · exact absurd hc (by decide)
    split at hc
    · exact absurd hc (by decide)
    · next hnewline _ => exact hnewline (List.mem_singleton.mp hc).symm
  quoted name := by
    by_cases hspecial : '\n' ∈ name ∨ '\\' ∈ name
    · refine Or.inr (List.mem_flatMap.mpr ?_)
      rcases hspecial with h | h
      · exact ⟨_, h, by decide⟩
      · exact ⟨_, h, by decide⟩
    · obtain ⟨hnewline, hbackslash⟩ := not_or.mp hspecial
      refine Or.inl ((List.flatMap_congr fun c hc => ?_).trans (List.flatMap_singleton' _))
      unfold quoteChar
      rw [if_neg (ne_of_mem_of_not_mem hc hnewline), if_neg (ne_of_mem_of_not_mem hc hbackslash)]

def regularFile (name : String) : ArchiveEntry := ⟨name.toList, .regular, " rw".toList, by decide⟩

/-- A system on which `tar` finds this archive. -/
def systemOf (archive : Archive) : System := fun command args =>
  if command = "tar" then
    if args.contains "--verbose" then some [encode (printed (verboseLines archive))]
    else some [encode (printed (nameLines quoteName archive))]
  else some []

def directory : String := "/data/backup"

theorem systemOf_lists (archive : Archive) : Lists (systemOf archive) directory quoteName archive where
  names := by
    have hplain : (listArguments directory).contains "--verbose" = false := by decide +kernel
    refine ⟨[encode (printed (nameLines quoteName archive))], ?_, List.flatten_singleton⟩
    rw [systemOf, if_pos rfl, hplain]
    rfl
  types := by
    have hverbose : (verboseArguments directory).contains "--verbose" = true := by decide +kernel
    refine ⟨[encode (printed (verboseLines archive))], ?_, List.flatten_singleton⟩
    rw [systemOf, if_pos rfl, hverbose]
    rfl

/-- 131072 names of seven letters, and one that leads out of the directory. -/
def outside : Archive := List.replicate 131072 (regularFile "uploads") ++ [regularFile "../etc"]

theorem start_outside (h : k ≤ 131072) : start (nameLines quoteName outside) k = k * 8 := by
  have htake : (nameLines quoteName outside).take k = List.replicate k "uploads".toList := by
    rw [nameLines, outside, List.map_append, List.map_replicate,
      List.take_append_of_le_length (by rw [List.length_replicate]; exact h), List.take_replicate, Nat.min_eq_left h]
    rfl
  have hsize : size "uploads".toList + 1 = 8 := by decide
  rw [start, htake, List.map_replicate, hsize, List.sum_replicate_nat]

end ArchiveDemo

/-- An archive with a link to a directory that does not belong to it. -/
theorem unsafe_archive_refused_iff_link :
    (verifyNativeArchives (.ok ()) (runCommand (ArchiveDemo.systemOf [⟨['a'], .symbolicLink, [], by decide⟩]))
      ArchiveDemo.directory =
        .ok () → ∀ entry ∈ ([⟨['a'], .symbolicLink, [], by decide⟩] : Archive), entry.Safe) ↔
      ¬DumpReadable (.ok ()) (ArchiveDemo.systemOf [⟨['a'], .symbolicLink, [], by decide⟩]) ArchiveDemo.directory ∨
      ∀ entry ∈ ([⟨['a'], .symbolicLink, [], by decide⟩] : Archive), ¬entry.Safe →
        ∃ k refused, ([⟨['a'], .symbolicLink, [], by decide⟩] : Archive)[k]? = some refused ∧
          (NameRefused ArchiveDemo.quoteName [⟨['a'], .symbolicLink, [], by decide⟩] k refused ∨
            TypeRefused [⟨['a'], .symbolicLink, [], by decide⟩] k refused) :=
  unsafe_archive_refused_iff _ _ _ ArchiveDemo.quoteName _ ArchiveDemo.quoteName_escapes (ArchiveDemo.systemOf_lists _)

/-- The name that leads out of the directory begins where the listing is cut, and the archive is accepted. -/
theorem entry_past_limit :
    verifyNativeArchives (.ok ()) (runCommand (ArchiveDemo.systemOf ArchiveDemo.outside)) ArchiveDemo.directory = .ok () ∧
      ArchiveDemo.regularFile "../etc" ∈ ArchiveDemo.outside ∧ ¬(ArchiveDemo.regularFile "../etc").Safe := by
  refine ⟨?_, List.mem_append_right _ (List.mem_singleton.mpr rfl), fun hsafe => hsafe.noParent (by decide)⟩
  refine (verifyNativeArchives_ok ArchiveDemo.quoteName_escapes (ArchiveDemo.systemOf_lists _)).mpr
    ⟨⟨rfl, rfl⟩, fun k entry hk => ?_⟩
  have hmem := List.mem_of_getElem? hk
  have htype : entry.type = .regular := by
    rcases List.mem_append.mp hmem with hmem | hmem
    · rw [List.eq_of_mem_replicate hmem]
      rfl
    · rw [List.mem_singleton.mp hmem]
      rfl
  refine ⟨?_, fun hrefused => hrefused.2.1 htype⟩
  rintro ⟨hlt, hrefused⟩
  have hsize : size "uploads".toList = 7 := by decide
  have hlimit : MAX_COMMAND_OUTPUT_BYTES = 131072 * 8 := rfl
  rcases Nat.lt_or_ge k 131072 with hbefore | hlast
  · rw [ArchiveDemo.outside, List.getElem?_append_left (by rw [List.length_replicate]; exact hbefore),
      List.getElem?_replicate, if_pos hbefore] at hk
    cases hk
    have hname : ArchiveDemo.quoteName (ArchiveDemo.regularFile "uploads").name = "uploads".toList := by decide
    rw [ArchiveDemo.start_outside (by omega), hname, cut_of_size_le (by omega)] at hrefused
    exact absurd hrefused (by decide)
  · have hlength : k < ArchiveDemo.outside.length := (List.getElem?_eq_some_iff.mp hk).1
    rw [ArchiveDemo.outside, List.length_append, List.length_replicate, List.length_singleton] at hlength
    obtain rfl : k = 131072 := by omega
    rw [ArchiveDemo.start_outside (by omega)] at hlt
    omega

end AdWiki.Backups
