import AdWiki.Backups.Artifact
import AdWiki.Lib.OrderedMap

/-!
# Mounted destinations

The configuration of a local destination, the mounts of the worker, and the adapter that publishes an artifact below a
mount under a logical reference: the name of the mount, the directory below it, and the name of the artifact.
-/

namespace AdWiki.Backups

/-- What `parse` of a schema throws. -/
def zodError : Failure := .system "ZodError"

/-! ## The configuration -/

def isLowerAlphanum (c : Char) : Bool := c.isLower || c.isDigit

/-- `/^[a-z0-9][a-z0-9_-]*$/.test(name)`. -/
def isMountName (name : String) : Bool :=
  match name.toList with
  | [] => false
  | c :: cs => isLowerAlphanum c && cs.all fun c => isLowerAlphanum c || c == '_' || c == '-'

/-- A segment that stays below its directory. -/
def isSegment (segment : String) : Bool := segment != "" && segment != "." && segment != ".."

/-- The refinement of `RelativePathSchema`. -/
def isRelativePath (value : String) : Bool :=
  value == "" ||
    (!Js.startsWith "/" value && !Js.startsWith "\\" value && !Js.includes '\\' value &&
      !Js.includes (Char.ofNat 0) value &&
      (Js.split '/' value).all isSegment)

structure MountedBackupConfig where
  mountName : String
  subdirectory : String
  mountName_valid : isMountName mountName = true
  subdirectory_valid : isRelativePath subdirectory = true
  deriving DecidableEq, Repr

def MountNameSchema (j : Json) : Option { name : String // isMountName name = true } := do
  let value := Js.trim (← string? j)
  if h : isMountName value = true then
    if 1 ≤ Js.length value ∧ Js.length value ≤ 64 then some ⟨value, h⟩ else none
  else none

def RelativePathSchema (j : Json) : Option { path : String // isRelativePath path = true } := do
  let value := Js.trim (← string? j)
  if h : isRelativePath value = true then if Js.length value ≤ 500 then some ⟨value, h⟩ else none else none

def MountedBackupConfigSchema (j : Json) : Option MountedBackupConfig := do
  strictObject ["mountName", "subdirectory"] j
  let mountName ← member? "mountName" MountNameSchema j
  let subdirectory ← RelativePathSchema ((j.get? "subdirectory").getD (.string ""))
  return ⟨mountName, subdirectory, mountName.2, subdirectory.2⟩

/-! ## The mounts -/

abbrev Mounts := OrderedMap String String

def mountsInvalid (message : String) : Failure := .operation "BACKUP_MOUNTS_INVALID" message

/-- The mount of an entry of the object, if its name and its path are valid. -/
def addMount (mounts : Mounts) : String × Json → Except Failure Mounts
  | (name, .string value) =>
    if isMountName name ∧ Path.isAbsolute value then .ok (mounts.set name (Path.resolve [value]))
    else .error (mountsInvalid "Jeder Backup-Mount benötigt einen gültigen Namen und einen absoluten Containerpfad.")
  | _ => .error (mountsInvalid "Jeder Backup-Mount benötigt einen gültigen Namen und einen absoluten Containerpfad.")

/-- The parameter is `BACKUP_MOUNTS_JSON`. -/
def parseBackupMounts (raw : Option String) : Except Failure Mounts :=
  match raw.filter (· ≠ "") with
  | none => .error (.operation "BACKUP_MOUNTS_MISSING" "BACKUP_MOUNTS_JSON ist nicht gesetzt.")
  | some raw =>
    match Json.parse raw.toList with
    | none => .error (mountsInvalid "BACKUP_MOUNTS_JSON enthält kein gültiges JSON.")
    | some (.object members) => do
      let mounts ← (OrderedMap.empty.setAll members).entries.foldlM addMount OrderedMap.empty
      Fallible.throwIf (mounts.entries = []) (mountsInvalid "Mindestens ein Backup-Mount ist erforderlich.")
      return mounts
    | some _ => .error (mountsInvalid "BACKUP_MOUNTS_JSON muss ein Objekt sein.")

/-- A mount whose path is not empty. -/
def mountRoot? (mounts : Mounts) (name : String) : Option String := (mounts.get? name).filter (· ≠ "")

/-- Whether a path leaves the directory that it is relative to. -/
def leaves (relative : String) : Bool := Js.startsWith ".." relative || Path.isAbsolute relative

def pathInvalid (message : String) : Failure := .operation "BACKUP_PATH_INVALID" message

def resolveMountedDestination (config : MountedBackupConfig) (mounts : Mounts) : Except Failure String :=
  match mountRoot? mounts config.mountName with
  | none =>
    .error (.operation "BACKUP_MOUNT_UNKNOWN"
      ("Der Backup-Mount '" ++ config.mountName ++ "' ist im Worker nicht konfiguriert."))
  | some mountRoot =>
    let destination := Path.resolve [mountRoot, Js.orElse config.subdirectory "."]
    if leaves (Path.relative mountRoot destination) then
      .error (pathInvalid "Das Backup-Ziel liegt außerhalb des erlaubten Mounts.")
    else .ok destination

def resolveLogicalArtifactPath (logicalPath : String) (mounts : Mounts) : Except Failure String :=
  let mountName := (Js.split '/' logicalPath).headD ""
  let segments := (Js.split '/' logicalPath).tail
  match mountRoot? mounts mountName with
  | none => .error (pathInvalid "Der gespeicherte Backup-Pfad ist ungueltig.")
  | some mountRoot =>
    if mountName = "" ∨ segments = [] ∨ segments.any (fun segment => !isSegment segment) then
      .error (pathInvalid "Der gespeicherte Backup-Pfad ist ungueltig.")
    else
      let target := Path.resolve (mountRoot :: segments)
      let relative := Path.relative mountRoot target
      if relative = "" ∨ leaves relative then
        .error (pathInvalid "Der gespeicherte Backup-Pfad liegt ausserhalb des Mounts.")
      else .ok target

/-! ## The adapter -/

structure MountedStorageAdapter where
  mountName : String
  subdirectory : String
  destinationRoot : String
  deriving DecidableEq, Repr

/-- The adapter of a local destination. -/
def localAdapter (raw : Option String) (config : Json) : Except Failure MountedStorageAdapter := do
  let mounts ← parseBackupMounts raw
  match MountedBackupConfigSchema config with
  | none => .error zodError
  | some config => return ⟨config.mountName, config.subdirectory, ← resolveMountedDestination config mounts⟩

/-- `/^ad-wiki-[A-Za-z0-9-]+$/.test(value)`. -/
def isArtifactName (value : String) : Bool :=
  Js.startsWith "ad-wiki-" value && Js.isWord isArtifactChar (String.ofList (value.toList.drop 8))

def safeArtifactName (value : String) : Except Failure String :=
  if isArtifactName value then .ok value else .error (pathInvalid "Der gespeicherte Artefaktname ist ungültig.")

/-- What there is of an artifact is copied to a partial directory, verified and renamed. -/
def copyArtifactAtomically (sha : Sha256) (fs : FileSystem) (source targetRoot artifactName : String) :
    Except Failure (String × FileSystem) := do
  let fs ← fs.mkdirRecursive targetRoot
  let finalDirectory := Path.join targetRoot artifactName
  let partialDirectory := finalDirectory ++ ".partial"
  Fallible.throwIf (fs finalDirectory).isSome
    (.operation "BACKUP_ARTIFACT_EXISTS" "Das Backup-Artefakt existiert am Ziel bereits.")
  let fs ← (fs.set partialDirectory none).mkdir partialDirectory
  let fs ← BACKUP_ARTIFACT_FILES.foldlM
    (fun (fs : FileSystem) file => do fs.write partialDirectory file (← fs.readFile source file)) fs
  let _ ← verifyBackupDirectory sha fs partialDirectory true
  let fs ← fs.rename partialDirectory finalDirectory
  return (finalDirectory, fs)

namespace MountedStorageAdapter

variable (adapter : MountedStorageAdapter)

def referenceFor (artifactName : String) : Except Failure String := do
  let artifactName ← safeArtifactName artifactName
  return "/".intercalate ([adapter.mountName, adapter.subdirectory, artifactName].filter (· ≠ ""))

def artifactName (reference : String) : Except Failure String := do
  let artifactName ← safeArtifactName (Path.basename reference)
  Fallible.throwIf (reference ≠ (← adapter.referenceFor artifactName))
    (pathInvalid "Der gespeicherte Mount-Pfad passt nicht zum Backup-Ziel.")
  return artifactName

def sourceDirectory (reference : String) : Except Failure String := do
  return Path.join adapter.destinationRoot (← adapter.artifactName reference)

/-- The directory of the artifact, its reference, and the files afterwards. -/
def publish (sha : Sha256) (artifact : CreatedBackupArtifact) (fs : FileSystem) :
    Except Failure (String × String × FileSystem) := do
  let artifactName ← safeArtifactName artifact.relativeDirectory
  let (directory, fs) ← copyArtifactAtomically sha fs artifact.directory adapter.destinationRoot artifactName
  return (directory, ← adapter.referenceFor artifactName, fs)

def verify (sha : Sha256) (fs : FileSystem) (reference : String) : Except Failure BackupManifest := do
  verifyBackupDirectory sha fs (← adapter.sourceDirectory reference) false

end MountedStorageAdapter

end AdWiki.Backups
