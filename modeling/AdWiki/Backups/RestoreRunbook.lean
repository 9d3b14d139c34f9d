import AdWiki.Backups.MountPaths
import AdWiki.Backups.Tables

/-!
# Restore preflight, runbook and command line

A preflight checks a stored artifact and keeps its logical path; the runbook prints the two restore commands with that
path; the command line of the restore container reads their arguments and finds the directory again. The preflight is the
one of an artifact at a mounted destination.
-/

namespace AdWiki.Backups

/-! ## The preflight -/

inductive RestorePreflightSecretKey
  | database
  | uploads
  | restoreMount
  | sourceCredentials
  deriving DecidableEq, Repr

structure RestorePreflightSecret where
  key : RestorePreflightSecretKey
  required : Bool
  configured : Bool
  deriving DecidableEq, Repr

structure RestorePreflightStorage where
  requiredBytes : Nat
  availableBytes : Nat
  sufficient : Bool
  deriving DecidableEq, Repr

structure RestorePreflightResult where
  backupId : Uuid
  backupCreatedAt : String
  restorePath : String
  integrityVerified : Bool
  databaseArchiveReadable : Bool
  uploadsArchiveReadable : Bool
  compatible : Bool
  secrets : List RestorePreflightSecret
  storage : RestorePreflightStorage
  ready : Bool
  checkedAt : IsoDate
  deriving DecidableEq, Repr

/-- `RestorePreflightResultSchema.parse(value)`: what the types do not say. -/
def RestorePreflightResultSchema (value : RestorePreflightResult) : Option RestorePreflightResult :=
  if 1 ≤ Js.length value.restorePath ∧ Js.length value.restorePath ≤ 1500 ∧ 3 ≤ value.secrets.length ∧
    value.secrets.length ≤ 4 ∧
    (IsoDate.ofText value.backupCreatedAt).isSome
  then some value else none

/-- The environment of the worker, and what it finds outside: whether the archives of a directory are readable, and how
much space there is for the uploads. -/
structure WorkerEnvironment where
  mounts : Option String
  stagingDir : Option String
  restoreMount : Option String
  restoreSubdirectory : Option String
  databaseUrl : Option String
  uploadsDir : Option String
  verifyNativeArchives : String → Except Failure Unit
  uploadsAvailable : Nat
  now : IsoDate

/-- The job whose artifact is to be restored. -/
structure SourceJob where
  id : Uuid
  status : BackupJobStatus
  artifactPath : Option String
  artifactSize : Option Nat
  destinationId : Option String
  deriving DecidableEq, Repr

/-- A preflight job, with the configuration of its local destination. -/
structure WorkerJob where
  destinationId : Option String
  destination : Option Json
  sourceJob : Option SourceJob

/-- A variable of the environment, trimmed, if it is not empty. -/
def setting? (value : Option String) : Option String := (value.map Js.trim).filter (· ≠ "")

namespace WorkerEnvironment

variable (env : WorkerEnvironment)

def stagingRoot : Except Failure String :=
  let configured := (setting? env.stagingDir).getD "/data/staging"
  if Path.isAbsolute configured then .ok (Path.resolve [configured])
  else .error (.operation "BACKUP_STAGING_INVALID" "BACKUP_STAGING_DIR muss absolut sein.")

/-- The adapter for what is downloaded; nothing is, from a mounted destination. -/
def restoreTarget : Except Failure MountedStorageAdapter :=
  localAdapter env.mounts
    (.object [("mountName", .string ((setting? env.restoreMount).getD "local")),
      ("subdirectory", .string ((setting? env.restoreSubdirectory).getD "restore"))])

end WorkerEnvironment

def RESTORE_STORAGE_RESERVE_BYTES : Nat := 512 * 1024 * 1024

def restoreSourceInvalid : Failure :=
  .operation "BACKUP_RESTORE_SOURCE_INVALID" "Das ausgewählte Backup ist nicht vollständig oder nicht mehr verfügbar."

/-- The source of a preflight, with the path of its artifact. -/
def restoreSource (candidate : WorkerJob) : Except Failure (SourceJob × String) := do
  let source ← Fallible.ofOption candidate.sourceJob restoreSourceInvalid
  let artifactPath ← Fallible.ofOption (source.artifactPath.filter (· ≠ "")) restoreSourceInvalid
  Fallible.throwIf (source.status ≠ .succeeded ∨ source.destinationId ≠ candidate.destinationId) restoreSourceInvalid
  return (source, artifactPath)

def destinationMissing : Failure := .operation "BACKUP_DESTINATION_MISSING" "Das Backup-Ziel existiert nicht mehr."

/-- The result for an artifact whose checks have passed. -/
def preflightResult (env : WorkerEnvironment) (source : SourceJob) (artifactPath : String) (manifest : BackupManifest) :
    RestorePreflightResult :=
  let requiredBytes := source.artifactSize.getD 0 * 2 + RESTORE_STORAGE_RESERVE_BYTES
  let secrets : List RestorePreflightSecret :=
    [⟨.database, true, true⟩, ⟨.uploads, true, true⟩, ⟨.restoreMount, true, true⟩, ⟨.sourceCredentials, false, true⟩]
  let storageSufficient := decide (requiredBytes ≤ env.uploadsAvailable)
  { backupId := manifest.backupId
    backupCreatedAt := manifest.createdAt
    restorePath := artifactPath
    integrityVerified := true
    databaseArchiveReadable := true
    uploadsArchiveReadable := true
    compatible := true
    secrets := secrets
    storage := ⟨requiredBytes, env.uploadsAvailable, storageSufficient⟩
    ready := storageSufficient && secrets.all fun secret => !secret.required || secret.configured
    checkedAt := env.now }

def executeRestorePreflight (sha : Sha256) (env : WorkerEnvironment) (candidate : WorkerJob) (fs : FileSystem) :
    Except Failure RestorePreflightResult := do
  let (source, artifactPath) ← restoreSource candidate
  let config ← Fallible.ofOption candidate.destination destinationMissing
  let sourceAdapter ← localAdapter env.mounts config
  let _ ← env.stagingRoot
  let verifiedManifest ← sourceAdapter.verify sha fs artifactPath
  let _ ← env.restoreTarget
  let mounts ← parseBackupMounts env.mounts
  let backupDirectory ← resolveLogicalArtifactPath artifactPath mounts
  let manifest ← verifyBackupDirectory sha fs backupDirectory false
  Fallible.throwIf (manifest.backupId ≠ source.id ∨ verifiedManifest.backupId ≠ manifest.backupId)
    (.operation "BACKUP_MANIFEST_MISMATCH" "Backup-ID und Manifest stimmen nicht überein.")
  let _ ← Fallible.ofOption (setting? env.databaseUrl)
    (.operation "DATABASE_URL_MISSING" "DATABASE_URL ist nicht gesetzt.")
  let _ ← Fallible.ofOption (setting? env.uploadsDir)
    (.operation "UPLOADS_PATH_MISSING" "BACKUP_UPLOADS_DIR ist nicht gesetzt.")
  env.verifyNativeArchives backupDirectory
  Fallible.ofOption (RestorePreflightResultSchema (preflightResult env source artifactPath manifest)) zodError

/-! ## The runbook -/

inductive RunbookKey
  | review
  | dryRun
  | stop
  | restore
  | start
  | verify
  deriving DecidableEq, Repr

structure RestoreRunbookStep where
  key : RunbookKey
  title : String
  description : String
  command : Option String
  danger : Bool
  deriving DecidableEq, Repr

structure RestoreRunbook where
  sourceJobId : Uuid
  preflightJobId : Uuid
  backupId : Uuid
  restorePath : String
  generatedAt : IsoDate
  steps : List RestoreRunbookStep
  deriving DecidableEq, Repr

/-- `z.string().min(1).max(limit)`. -/
def hasLength (limit : Nat) (value : String) : Bool := 1 ≤ Js.length value && Js.length value ≤ limit

def RestoreRunbookStep.valid (step : RestoreRunbookStep) : Bool :=
  hasLength 120 step.title && hasLength 500 step.description && step.command.all (hasLength 2000)

/-- `RestoreRunbookSchema.parse(value)`: what the types do not say. -/
def RestoreRunbookSchema (value : RestoreRunbook) : Option RestoreRunbook :=
  if hasLength 1500 value.restorePath ∧ value.steps.length = 6 ∧ value.steps.all RestoreRunbookStep.valid then
    some value else none

/-- The row of a preflight job. -/
structure PreflightRow where
  id : Uuid
  operation : BackupJobOperation
  status : BackupJobStatus
  sourceJobId : Option Uuid
  restorePreflight : Option RestorePreflightResult
  deriving DecidableEq, Repr

/-- `[A-Za-z0-9._-]`. -/
def isRunbookChar (c : Char) : Bool := c.isAlphanum || c == '.' || c == '_' || c == '-'

def isRunbookSegment (segment : String) : Bool := Js.isWord isRunbookChar segment && segment != "." && segment != ".."

def compose : String := "docker compose --env-file .env.production -f docker-compose.prod.yml"

def restoreBase (mountName relativePath : String) : String :=
  compose ++ " --profile operations run --rm backup-restore restore --mount " ++ mountName ++ " --backup " ++ relativePath

def dryRunCommand (mountName relativePath : String) : String := restoreBase mountName relativePath ++ " --dry-run"

def confirmCommand (mountName relativePath : String) (backupId : Uuid) : String :=
  restoreBase mountName relativePath ++ " --confirm " ++ backupId.text

def runbookSteps (mountName relativePath : String) (backupId : Uuid) : List RestoreRunbookStep :=
  [⟨.review, "Vorprüfung kontrollieren",
    "Backup-ID, Prüfsummen, Archive, Speicherplatz und benötigte Konfiguration prüfen.", none, false⟩,
    ⟨.dryRun, "Dry-Run ausführen", "Prüft das Backup erneut im isolierten Operations-Container, ohne Daten zu verändern.",
      some (dryRunCommand mountName relativePath), false⟩,
    ⟨.stop, "Schreibzugriffe stoppen", "Stoppt Reverse Proxy, Web-App, API und Backup-Worker vor der Wiederherstellung.",
      some (compose ++ " stop nginx web api backup-worker"), true⟩,
    ⟨.restore, "Wiederherstellung bestätigen",
      "Ersetzt Datenbank und Uploads. Die exakte Backup-ID ist die verpflichtende Bestätigung.",
      some (confirmCommand mountName relativePath backupId), true⟩,
    ⟨.start, "AD-Wiki starten", "Startet alle Produktionsdienste nach erfolgreichem Restore und den Migrationen.",
      some (compose ++ " up -d"), false⟩,
    ⟨.verify, "Bereitschaft prüfen",
      "Prüft den Readiness-Endpunkt. Ergebnis und Dauer stehen anschließend im Audit-Log.",
      some "curl --fail --silent --show-error --insecure https://127.0.0.1/api/v1/health/ready", false⟩]

def preflightUnfinished : HttpError := .badRequest "Die Restore-Vorprüfung ist noch nicht erfolgreich abgeschlossen."

def restorePathInvalid : HttpError := .badRequest "Der geprüfte Restore-Pfad ist ungültig."

/-- A preflight that has succeeded: its job, the job of the artifact, and what it has found. -/
def finishedPreflight : Option PreflightRow → Option (Uuid × Uuid × RestorePreflightResult)
  | some ⟨id, .restorePreflight, .succeeded, some sourceJobId, some preflight⟩ => some (id, sourceJobId, preflight)
  | _ => none

def getRestoreRunbook (row : Option PreflightRow) (now : IsoDate) : Except HttpError RestoreRunbook := do
  let (id, sourceJobId, stored) ← Fallible.ofOption (finishedPreflight row) preflightUnfinished
  let preflight ← Fallible.ofOption (RestorePreflightResultSchema stored) (.internal "ZodError")
  Fallible.throwIf (preflight.ready = false) (.badRequest "Die Restore-Vorprüfung enthält noch blockierende Punkte.")
  let mountName := (Js.split '/' preflight.restorePath).headD ""
  let relativeSegments := (Js.split '/' preflight.restorePath).tail
  Fallible.throwIf (mountName = "" ∨ isMountName mountName = false ∨ relativeSegments = [] ∨
    relativeSegments.any (fun segment => !isRunbookSegment segment) = true) restorePathInvalid
  Fallible.ofOption
    (RestoreRunbookSchema
      ⟨sourceJobId, id, preflight.backupId, preflight.restorePath, now,
        runbookSteps mountName ("/".intercalate relativeSegments) preflight.backupId⟩)
    (.internal "ZodError")

/-! ## The command line -/

structure RestoreOptions where
  mountName : String
  relativeBackupPath : String
  dryRun : Bool
  confirmation : Option String
  deriving DecidableEq, Repr

/-- What the loop has read. -/
structure ParsedArguments where
  mountName : Option String
  relativeBackupPath : Option String
  confirmation : Option String
  dryRun : Bool
  deriving DecidableEq, Repr

def argumentsInvalid (message : String) : Failure := .operation "RESTORE_ARGUMENTS_INVALID" message

/-- An argument with its value. -/
def ParsedArguments.take (parsed : ParsedArguments) (argument value : String) : ParsedArguments :=
  if argument = "--mount" then { parsed with mountName := some value }
  else if argument = "--backup" then { parsed with relativeBackupPath := some value }
  else { parsed with confirmation := some value }

def readArguments (parsed : ParsedArguments) : List String → Except Failure ParsedArguments
  | [] => .ok parsed
  | argument :: args =>
    if argument = "--dry-run" then readArguments { parsed with dryRun := true } args
    else if argument = "--mount" ∨ argument = "--backup" ∨ argument = "--confirm" then
      match args with
      | [] => .error (argumentsInvalid ("Für " ++ argument ++ " fehlt ein Wert."))
      | value :: args =>
        if value = "" ∨ Js.startsWith "--" value then .error (argumentsInvalid ("Für " ++ argument ++ " fehlt ein Wert."))
        else readArguments (parsed.take argument value) args
    else .error (argumentsInvalid ("Unbekanntes Argument: " ++ argument))

def parseArguments (args : List String) : Except Failure RestoreOptions := do
  let parsed ← readArguments ⟨none, none, none, false⟩ args
  match parsed.mountName, parsed.relativeBackupPath with
  | some mountName, some relativeBackupPath =>
    Fallible.throwIf (isMountName mountName = false)
      (argumentsInvalid "--mount und --backup müssen mit gültigen Werten angegeben werden.")
    Fallible.throwIf (parsed.dryRun = true ∧ parsed.confirmation.isSome)
      (argumentsInvalid "--dry-run und --confirm dürfen nicht kombiniert werden.")
    return ⟨mountName, relativeBackupPath, parsed.dryRun, parsed.confirmation⟩
  | _, _ => .error (argumentsInvalid "--mount und --backup müssen mit gültigen Werten angegeben werden.")

def resolveRelativePath (root relativePath : String) : Except Failure String :=
  if Path.isAbsolute relativePath ∨ Js.includes '\\' relativePath ∨ Js.includes (Char.ofNat 0) relativePath ∨
    (Js.split '/' relativePath).any fun segment => !isSegment segment
  then .error (pathInvalid "Der Backup-Pfad muss sicher und relativ sein.")
  else
    let resolved := Path.resolve [root, relativePath]
    if leaves (Path.relative root resolved) then .error (pathInvalid "Der Backup-Pfad liegt außerhalb des Mounts.")
    else .ok resolved

/-- The directory that `runRestoreCli` reads; `mounts` is `BACKUP_MOUNTS_JSON`. -/
def restoreDirectory (args : List String) (mounts : Option String) : Except Failure String := do
  let options ← parseArguments args
  let mounts ← parseBackupMounts mounts
  match mountRoot? mounts options.mountName with
  | none => .error (.operation "BACKUP_MOUNT_UNKNOWN" "Der angegebene Backup-Mount ist nicht konfiguriert.")
  | some mountRoot => resolveRelativePath mountRoot options.relativeBackupPath

/-- The arguments of the restore container: its entry point takes the operation `restore` off the words of the command. -/
def containerArguments (command : String) : List String := ((Js.split ' ' command).dropWhile (· ≠ "restore")).drop 1

end AdWiki.Backups
