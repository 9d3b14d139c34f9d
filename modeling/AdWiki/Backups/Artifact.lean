import AdWiki.Common.IsoDate
import AdWiki.Common.JsString
import AdWiki.Common.Path
import AdWiki.Lib.Fallible
import AdWiki.Lib.Json
import AdWiki.Lib.Utf8

/-!
# Backup artifacts

What `createLocalBackupArtifact` writes and what `verifyBackupDirectory` reads: the dump, the archive of the uploads, a
manifest and a list of checksums. The file system is known as far as the two look at it: directories by their paths, each
with its entries by name. `pg_dump` and `tar` write what they like, or fail.
-/

namespace AdWiki.Backups

abbrev Bytes := List UInt8

/-- A `BackupOperationError`, or another error by its code or its name. -/
inductive Failure
  | operation (code message : String)
  | system (code : String)
  deriving DecidableEq, Repr

/-! ## Files -/

inductive ArtifactFile
  | database
  | uploads
  | manifest
  | checksums
  deriving DecidableEq, Repr

def ArtifactFile.name : ArtifactFile → String
  | .database => "database.dump"
  | .uploads => "uploads.tar.gz"
  | .manifest => "manifest.json"
  | .checksums => "SHA256SUMS"

def REQUIRED_ARTIFACT_FILES : List ArtifactFile := [.database, .uploads, .manifest]

def BACKUP_ARTIFACT_FILES : List ArtifactFile := REQUIRED_ARTIFACT_FILES ++ [.checksums]

/-- An entry that is no file has nothing to read. -/
inductive Entry
  | file (content : Bytes)
  | other
  deriving DecidableEq, Repr

abbrev Directory := List (String × Entry)

inductive Node
  | directory (entries : Directory)
  | other
  deriving DecidableEq, Repr

abbrev FileSystem := String → Option Node

namespace FileSystem

variable (fs : FileSystem)

def set (path : String) (node : Option Node) : FileSystem := fun path' => if path' = path then node else fs path'

/-- `mkdir(path, { recursive: true })`. -/
def mkdirRecursive (path : String) : Except Failure FileSystem :=
  match fs path with
  | none => .ok (fs.set path (some (.directory [])))
  | some (.directory _) => .ok fs
  | some .other => .error (.system "EEXIST")

/-- `mkdir(path, { recursive: false })`. -/
def mkdir (path : String) : Except Failure FileSystem :=
  match fs path with
  | none => .ok (fs.set path (some (.directory [])))
  | some _ => .error (.system "EEXIST")

/-- The entries of a directory. -/
def entries (path : String) : Except Failure Directory :=
  match fs path with
  | none => .error (.system "ENOENT")
  | some .other => .error (.system "ENOTDIR")
  | some (.directory entries) => .ok entries

/-- A file is written; one that is there is replaced. -/
def write (path : String) (file : ArtifactFile) (content : Bytes) : Except Failure FileSystem := do
  let entries ← fs.entries path
  return fs.set path (some (.directory (entries.filter (·.1 ≠ file.name) ++ [(file.name, .file content)])))

/-- `writeFile(path.join(directory, file), content, { flag: "wx" })`. -/
def writeNew (path : String) (file : ArtifactFile) (content : Bytes) : Except Failure FileSystem := do
  let entries ← fs.entries path
  Fallible.throwIf (entries.lookup file.name).isSome (.system "EEXIST")
  fs.write path file content

/-- `rename(source, target)`: an empty directory may be in the way. -/
def rename (source target : String) : Except Failure FileSystem :=
  match fs source, fs target with
  | none, _ => .error (.system "ENOENT")
  | some _, some .other => .error (.system "ENOTDIR")
  | some _, some (.directory (_ :: _)) => .error (.system "ENOTEMPTY")
  | some node, some (.directory []) => .ok ((fs.set source none).set target (some node))
  | some node, none => .ok ((fs.set source none).set target (some node))

/-- `stat(path.join(directory, file))`. -/
def stat (path : String) (file : ArtifactFile) : Except Failure Entry := do
  match (← fs.entries path).lookup file.name with
  | some entry => .ok entry
  | none => .error (.system "ENOENT")

/-- `readFile(path.join(directory, file))`. -/
def readFile (path : String) (file : ArtifactFile) : Except Failure Bytes := do
  match ← fs.stat path file with
  | .file content => .ok content
  | .other => .error (.system "EISDIR")

end FileSystem

/-! ## Checksums -/

def isLowerHex (c : Char) : Bool := c.isDigit || ('a' ≤ c && c ≤ 'f')

/-- `/^[a-f0-9]{64}$/.test(value)`. -/
def isSha256 (value : List Char) : Bool := value.length == 64 && value.all isLowerHex

/-- The digest of `createHash("sha256")`, in hexadecimal. -/
structure Sha256 where
  hex : Bytes → String
  valid : ∀ content, isSha256 (hex content).toList = true

/-- `value.trimEnd()`. -/
def trimEnd (text : List Char) : List Char := (text.reverse.dropWhile Js.isSpace).reverse

/-- The required file of a name. -/
def requiredFile (name : List Char) : Option ArtifactFile :=
  REQUIRED_ARTIFACT_FILES.find? fun file => file.name.toList == name

/-- `/^([a-f0-9]{64})  (database\.dump|uploads\.tar\.gz|manifest\.json)$/.exec(line)`. -/
def parseLine (line : List Char) : Option (ArtifactFile × String) :=
  if isSha256 (line.take 64) ∧ (line.drop 64).take 2 = [' ', ' '] then
    (requiredFile (line.drop 66)).map fun file => (file, String.ofList (line.take 64))
  else none

def checksumFileInvalid : Failure := .operation "BACKUP_CHECKSUM_FILE_INVALID" "Die Prüfsummendatei ist ungültig."

/-- A line of the list is taken, if it is one and its file is not in the map yet. -/
def addLine (result : List (ArtifactFile × String)) (line : List Char) : Except Failure (List (ArtifactFile × String)) :=
  match parseLine (trimEnd line) with
  | none => .error checksumFileInvalid
  | some entry => if (result.lookup entry.1).isSome then .error checksumFileInvalid else .ok (result ++ [entry])

def parseChecksums (content : List Char) : Except Failure (List (ArtifactFile × String)) := do
  let result ← ((trimEnd content).splitOn '\n').foldlM addLine []
  Fallible.throwIf (result.length ≠ REQUIRED_ARTIFACT_FILES.length)
    (.operation "BACKUP_CHECKSUM_FILE_INVALID" "Die Prüfsummendatei ist unvollständig.")
  return result

/-- `${hash}  ${fileName}`. -/
def checksumLine (hash : String) (file : ArtifactFile) : String := hash ++ "  " ++ file.name

/-! ## The manifest -/

/-- The files that a manifest describes. -/
inductive ManifestPath
  | database
  | uploads
  deriving DecidableEq, Repr

def ManifestPath.file : ManifestPath → ArtifactFile
  | .database => .database
  | .uploads => .uploads

structure ManifestFile where
  path : ManifestPath
  size : Nat
  sha256 : String
  sha256_valid : isSha256 sha256.toList = true
  deriving DecidableEq, Repr

/-- What varies in a manifest; the rest are the literals of its schema. -/
structure BackupManifest where
  backupId : Uuid
  createdAt : String
  createdAt_valid : (IsoDate.ofText createdAt).isSome = true
  files : List ManifestFile
  files_length : files.length = 2
  deriving DecidableEq, Repr

def ManifestFile.toJson (file : ManifestFile) : Json :=
  .object [("path", .string file.path.file.name), ("size", .number (.ofNat file.size)), ("sha256", .string file.sha256)]

def BackupManifest.toJson (manifest : BackupManifest) : Json :=
  .object
    [("formatVersion", .number (.ofNat 1)),
      ("backupId", .string manifest.backupId.text),
      ("createdAt", .string manifest.createdAt),
      ("application", .string "ad-wiki"),
      ("database", .object [("file", .string "database.dump"), ("format", .string "postgresql-custom")]),
      ("uploads", .object [("file", .string "uploads.tar.gz"), ("format", .string "tar-gzip")]),
      ("files", .array (manifest.files.map ManifestFile.toJson))]

/-! ### Its schema -/

def string? : Json → Option String
  | .string value => some value
  | _ => none

/-- `z.number().int().nonnegative()`; sizes are small enough to be read exactly. -/
def size? : Json → Option Nat
  | .number value => value.toNat?
  | _ => none

def items? : Json → Option (List Json)
  | .array items => some items
  | _ => none

def member? {α : Type} (name : String) (read : Json → Option α) (j : Json) : Option α := (j.get? name).bind read

/-- `z.object(…).strict()`: no member but these. -/
def strictObject (names : List String) : Json → Option Unit
  | .object members => if members.all fun member => names.contains member.1 then some () else none
  | _ => none

/-- `z.literal(value)`. -/
def literal (value : String) (j : Json) : Option Unit := if string? j = some value then some () else none

/-- `z.enum(["database.dump", "uploads.tar.gz"])`. -/
def manifestPath? (j : Json) : Option ManifestPath :=
  if string? j = some ManifestPath.database.file.name then some .database
  else if string? j = some ManifestPath.uploads.file.name then some .uploads
  else none

def ManifestFileSchema (j : Json) : Option ManifestFile := do
  strictObject ["path", "size", "sha256"] j
  let path ← member? "path" manifestPath? j
  let size ← member? "size" size? j
  let sha256 ← member? "sha256" string? j
  if h : isSha256 sha256.toList = true then some ⟨path, size, sha256, h⟩ else none

def contentSchema (file format : String) (j : Json) : Option Unit := do
  strictObject ["file", "format"] j
  member? "file" (literal file) j
  member? "format" (literal format) j

def BackupManifestSchema (j : Json) : Option BackupManifest := do
  strictObject ["formatVersion", "backupId", "createdAt", "application", "database", "uploads", "files"] j
  let formatVersion ← member? "formatVersion" size? j
  let backupId ← member? "backupId" string? j
  let createdAt ← member? "createdAt" string? j
  member? "application" (literal "ad-wiki") j
  member? "database" (contentSchema "database.dump" "postgresql-custom") j
  member? "uploads" (contentSchema "uploads.tar.gz" "tar-gzip") j
  let files ← (← member? "files" items? j).mapM ManifestFileSchema
  if h : formatVersion = 1 ∧ isUuid backupId = true ∧ (IsoDate.ofText createdAt).isSome = true ∧ files.length = 2 then
    some ⟨⟨backupId, h.2.1⟩, createdAt, h.2.2.1, files, h.2.2.2⟩
  else none

/-! ## The verifier -/

section Verify

variable (sha : Sha256) (fs : FileSystem) (directory : String)

def sha256File (file : ArtifactFile) : Except Failure String := (fs.readFile directory file).map sha.hex

/-- The root: a directory that is not being written, unless that is allowed. -/
def checkRoot (allowPartial : Bool) : Except Failure Unit :=
  match fs directory with
  | none => .error (.system "ENOENT")
  | some node =>
    Fallible.throwIf (node = .other ∨ allowPartial = false ∧ Js.endsWith ".partial" directory = true)
      (.operation "BACKUP_INCOMPLETE" "Unvollständige oder ungültige Backups werden abgelehnt.")

/-- The error that a check gives for what is no file. -/
def noFile (message : String) : Entry → Except Failure Unit
  | .file _ => .ok ()
  | .other => .error (.operation "BACKUP_FILE_INVALID" message)

def checkFile (file : ArtifactFile) : Except Failure Unit := do
  noFile ("Die Backup-Datei '" ++ file.name ++ "' ist ungültig.") (← fs.stat directory file)

def checkChecksum (expected : List (ArtifactFile × String)) (file : ArtifactFile) : Except Failure Unit := do
  let actual ← sha256File sha fs directory file
  Fallible.throwIf (expected.lookup file ≠ some actual)
    (.operation "BACKUP_CHECKSUM_MISMATCH" ("Prüfsumme für '" ++ file.name ++ "' stimmt nicht überein."))

/-- The manifest of the directory, if its file holds one. -/
def readManifest : Except Failure BackupManifest := do
  let content ← fs.readFile directory .manifest
  match (Json.parse (Utf8.decode content)).bind BackupManifestSchema with
  | some manifest => .ok manifest
  | none => .error (.operation "BACKUP_MANIFEST_INVALID" "Das Backup-Manifest ist ungültig.")

def describeFile (artifactPath : ManifestPath) : Except Failure ManifestFile := do
  noFile ("Die Backup-Datei '" ++ artifactPath.file.name ++ "' wurde nicht erzeugt.")
    (← fs.stat directory artifactPath.file)
  let content ← fs.readFile directory artifactPath.file
  return ⟨artifactPath, content.length, sha.hex content, sha.valid content⟩

def checkEntry (entry : ManifestFile) : Except Failure Unit := do
  let current ← describeFile sha fs directory entry.path
  Fallible.throwIf (current.size ≠ entry.size ∨ current.sha256 ≠ entry.sha256)
    (.operation "BACKUP_MANIFEST_MISMATCH" ("Manifestdaten für '" ++ entry.path.file.name ++ "' stimmen nicht überein."))

def verifyBackupDirectory (allowPartial : Bool) : Except Failure BackupManifest := do
  checkRoot fs directory allowPartial
  BACKUP_ARTIFACT_FILES.forM (checkFile fs directory)
  let expected ← parseChecksums (Utf8.decode (← fs.readFile directory .checksums))
  REQUIRED_ARTIFACT_FILES.forM (checkChecksum sha fs directory expected)
  let manifest ← readManifest fs directory
  manifest.files.forM (checkEntry sha fs directory)
  Fallible.throwIf ((Js.distinct (manifest.files.map ManifestFile.path)).length ≠ 2)
    (.operation "BACKUP_MANIFEST_INVALID" "Das Backup-Manifest enthält doppelte Dateieinträge.")
  return manifest

end Verify

/-! ## The writer -/

/-- `[A-Za-z0-9-]`: the characters of a generated name. -/
def isArtifactChar (c : Char) : Bool := c.isAlphanum || c == '-'

structure ArtifactInput where
  backupId : Uuid
  destinationDirectory : String
  now : IsoDate

/-- What the two commands write, unless they fail; `environment` is the outcome of `postgresEnvironment(databaseUrl)`. -/
structure Commands where
  environment : Except Failure Unit
  pg_dump : Option Bytes
  tar : Option Bytes

structure CreatedBackupArtifact where
  directory : String
  relativeDirectory : String
  size : Nat
  checksum : String
  manifest : BackupManifest
  deriving DecidableEq, Repr

namespace ArtifactInput

variable (input : ArtifactInput)

/-- `createdAt.toISOString().replace(/[-:.]/g, "")`. -/
def timestamp : String := String.ofList (input.now.toISOString.toList.filter fun c => c ≠ '-' ∧ c ≠ ':' ∧ c ≠ '.')

def directoryName : String := "ad-wiki-" ++ input.timestamp ++ "-" ++ input.backupId.text

def partialDirectory : String := Path.join input.destinationDirectory (input.directoryName ++ ".partial")

def finalDirectory : String := Path.join input.destinationDirectory input.directoryName

theorem createdAt_valid : (IsoDate.ofText input.now.toISOString).isSome = true := by
  rw [IsoDate.ofText_toISOString]
  rfl

end ArtifactInput

/-- A command writes its file, or fails. -/
def execute (fs : FileSystem) (directory : String) (file : ArtifactFile) (output : Option Bytes) (failure : Failure) :
    Except Failure FileSystem :=
  match output with
  | none => .error failure
  | some content => fs.write directory file content

/-- `JSON.stringify(manifest, null, 2)` and a line break. -/
def manifestText (manifest : BackupManifest) : List Char := Json.print (.indented 2) 0 manifest.toJson ++ ['\n']

def checksumText (lines : List String) : String := "\n".intercalate lines ++ "\n"

def checksumLines (sha : Sha256) (fs : FileSystem) (directory : String) : Except Failure (List String) :=
  REQUIRED_ARTIFACT_FILES.mapM fun file => return checksumLine (← sha256File sha fs directory file) file

/-- The sizes of the four files. -/
def sumArtifactSize (fs : FileSystem) (directory : String) : Except Failure Nat :=
  BACKUP_ARTIFACT_FILES.foldlM (fun size file => return size + (← fs.readFile directory file).length) 0

/-- The part of `createLocalBackupArtifact` in the `try`. -/
def fillArtifact (sha : Sha256) (input : ArtifactInput) (commands : Commands) (fs : FileSystem) :
    Except Failure (CreatedBackupArtifact × FileSystem) := do
  let directory := input.partialDirectory
  commands.environment
  let fs ← execute fs directory .database commands.pg_dump
    (.operation "PG_DUMP_FAILED" "Der PostgreSQL-Dump ist fehlgeschlagen.")
  let fs ← execute fs directory .uploads commands.tar
    (.operation "UPLOAD_ARCHIVE_FAILED" "Das Upload-Archiv ist fehlgeschlagen.")
  let database ← describeFile sha fs directory .database
  let uploads ← describeFile sha fs directory .uploads
  let manifest : BackupManifest :=
    ⟨input.backupId, input.now.toISOString, input.createdAt_valid, [database, uploads], rfl⟩
  let fs ← fs.writeNew directory .manifest (Utf8.encode (manifestText manifest))
  let lines ← checksumLines sha fs directory
  let fs ← fs.writeNew directory .checksums (Utf8.encode (checksumText lines).toList)
  let _ ← verifyBackupDirectory sha fs directory true
  let checksum ← sha256File sha fs directory .checksums
  let size ← sumArtifactSize fs directory
  let fs ← fs.rename directory input.finalDirectory
  return (⟨input.finalDirectory, input.directoryName, size, checksum, manifest⟩, fs)

/-- An error that is no `BackupOperationError` becomes one. -/
def wrap : Failure → Failure
  | .operation code message => .operation code message
  | .system _ => .operation "BACKUP_ARTIFACT_FAILED" "Das Backup-Artefakt konnte nicht vollständig erstellt werden."

/-- What a failure leaves in the partial directory is not kept. -/
def createLocalBackupArtifact (sha : Sha256) (input : ArtifactInput) (commands : Commands) (fs : FileSystem) :
    Except Failure (CreatedBackupArtifact × FileSystem) := do
  let fs ← fs.mkdirRecursive input.destinationDirectory
  let fs ← fs.mkdir input.partialDirectory
  (fillArtifact sha input commands fs).mapError wrap

end AdWiki.Backups
