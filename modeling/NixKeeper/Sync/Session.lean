import NixKeeper.Digest.Sha256
import NixKeeper.Files.Generated
import NixKeeper.Managed.Merge
import NixKeeper.Storage.Basic
import NixKeeper.Sync.Report
import NixKeeper.Sync.Settings

/-!
A session that keeps the generated files of a place and its snapshot in step with a model.

An operation answers together with the session after it, also where it fails.
-/

namespace NixKeeper

/-- Why a sync is refused. -/
inductive SyncError where
  | file (error : FileError)
  | model (error : ModelError)
deriving DecidableEq

/-- The sentence that tells a reader what went wrong. -/
def SyncError.message : SyncError → String
  -- The message is that of the cause.
  | file error => error.message
  | model error => error.message

/-- Where a model was found. -/
inductive LoadSource where
  | snapshot
  | imported
  | defaults
deriving DecidableEq

/-- The words for the place where a model was found. -/
def LoadSource.message : LoadSource → String
  -- These words stand behind the label in the summary.
  | snapshot => "snapshot"
  | imported => "imported from Nix files"
  | defaults => "defaults"

/-- A model and where it was found. -/
structure Loaded where
  model : Model
  source : LoadSource

/-- A file as it is and as it should be. -/
structure PlannedFile where
  path : Path
  content : String
  existing : Option String
deriving DecidableEq

/-- The file has to be written. -/
def PlannedFile.isChanged (file : PlannedFile) : Bool :=
  file.existing != some file.content

/-- A place with its files, its settings and what is remembered about its snapshot. -/
structure Session (σ : Type) where
  store : σ
  root : Path
  settings : Settings
  /-- The checksum of the snapshot that was last read or written. -/
  checksum : Option String

/-- The name of the hardware file. -/
def hardwareFileName : String :=
  "hardware-configuration.nix"

/-- The text unless it is blank. -/
def nonBlank (text : String) : Option String :=
  if Text.allBlank text.toList then none else some text

namespace Session

variable {σ : Type} [Storage σ]

/-- The session of a place with given settings. -/
def withSettings (store : σ) (root : Path) (settings : Settings) : Session σ :=
  ⟨store, root, settings, none⟩

/-- The session of a place with the settings in its settings file. -/
def start (store : σ) (root : Path) : Except FileError (Session σ) :=
  (Settings.load store root).map (withSettings store root)

/-- The changes of names that hold in the session. -/
def renames (session : Session σ) : Renames :=
  .withOverrides session.settings.renames

/-- The path of a generated file. -/
def filePath (session : Session σ) (kind : FileKind) : Path :=
  session.root.join kind.fileName

/-- The path of the snapshot. -/
def snapshotPath (session : Session σ) : Path :=
  session.root.join session.settings.snapshotFile

/-- The path of the hardware file. -/
def hardwarePath (session : Session σ) : Path :=
  session.root.join hardwareFileName

/-- The text that a file of a kind has for a model. -/
def generate (session : Session σ) (model : Model) (kind : FileKind) : String :=
  String.ofList (Files.generate session.renames model kind)

/-- The text of the hardware file, unless it is missing or blank. -/
def readHardware (session : Session σ) : Except FileError (Option String) := do
  -- A blank file says as little as a missing one.
  return (← Storage.readOptional session.store session.hardwarePath).bind nonBlank

/-- The model with the hardware file, if there is one that is not blank. -/
def withHardware (session : Session σ) (model : Model) : Except FileError Model := do
  -- The hardware file is newer than what a snapshot remembers of it.
  match ← session.readHardware with
  | some hardware =>
    return { model with system := { model.system with hardwareConfig := some hardware } }
  | none => return model

/-- The model with what a generated file says, if it is there. -/
def importFile (session : Session σ) (model : Model) (kind : FileKind) :
    Except FileError Model := do
  -- A file that is missing says nothing.
  match ← Storage.readOptional session.store (session.filePath kind) with
  | some text =>
    return Files.read session.renames session.settings.defaultUsername text.toList model kind
  | none => return model

/-- A model with what all files say. -/
def importFiles (session : Session σ) (base : Model) : Except FileError Model := do
  -- Each file adds to what the ones before it have said.
  session.withHardware (← FileKind.all.foldlM session.importFile base)

/-- The model in the snapshot, which is remembered if it could be read. -/
def readSnapshot (session : Session σ) : Except FileError (Option Model) × Session σ :=
  -- A snapshot that cannot be understood is passed over, but one that cannot be read is an error.
  match Storage.readOptional session.store session.snapshotPath with
  | .error error => (.error error, session)
  | .ok none => (.ok none, session)
  | .ok (some content) =>
    match Model.schema.parse session.snapshotPath content with
    | .ok model =>
      (.ok (some model), { session with checksum := some (Sha256.checksum content) })
    | .error _ => (.ok none, session)

/-- One of the generated files is there. -/
def hasFiles (session : Session σ) : Bool :=
  FileKind.all.any fun kind => Storage.contains session.store (session.filePath kind)

/-- The model of the place: from the snapshot, else from the files, else the initial one. -/
def load (session : Session σ) : Except FileError Loaded × Session σ :=
  match session.readSnapshot with
  | (.error error, session) => (.error error, session)
  | (.ok (some model), session) =>
    ((session.withHardware model).map fun model => ⟨model, .snapshot⟩, session)
  | (.ok none, session) =>
    -- Without any file the model to begin with is used as it is.
    if session.hasFiles then
      ((session.importFiles .initial).map fun model => ⟨model, .imported⟩, session)
    else (.ok ⟨.initial, .defaults⟩, session)

/-- A file of this kind keeps what is written outside its managed region. -/
def merges (session : Session σ) (kind : FileKind) : Bool :=
  -- The manifest is replaced as a whole unless the settings say otherwise.
  kind != .manifest || session.settings.preserveManifestEdits

/-- The text that the hardware file has for a model, if it is to be written. -/
def hardwareContent (session : Session σ) (model : Model) : Option String :=
  if session.settings.writeHardwareConfig then model.system.hardwareConfig.bind nonBlank else none

/-- What a generated file should be. -/
def planFile (session : Session σ) (model : Model) (kind : FileKind) :
    Except FileError PlannedFile := do
  let path := session.filePath kind
  let generated := session.generate model kind
  -- The plan depends on what is there now, so it is made before anything is written.
  let existing ← Storage.readOptional session.store path
  let content := match existing with
    | some current =>
      if session.merges kind then
        String.ofList (Managed.merge current.toList generated.toList)
      else generated
    | none => generated
  return { path, content, existing }

/-- What the hardware file should be, if it is to be written. -/
def planHardware (session : Session σ) (model : Model) : Except FileError (List PlannedFile) :=
  -- The file is planned only if the settings and the model ask for it.
  match session.hardwareContent model with
  | none => .ok []
  | some content => do
    let path := session.hardwarePath
    return [{ path, content, existing := ← Storage.readOptional session.store path }]

/-- What all files should be. -/
def plan (session : Session σ) (model : Model) : Except FileError (List PlannedFile) := do
  -- The hardware file comes last.
  let files ← FileKind.all.mapM (session.planFile model)
  return files ++ (← session.planHardware model)

/-- Writes the files that have changed, as far as they can be written. -/
def writeFiles (store : σ) (report : SyncReport) (files : List PlannedFile) : SyncReport × σ :=
  -- A file that cannot be written does not keep the others from being written.
  files.foldl (fun (report, store) file =>
    if file.isChanged then
      match Storage.write store file.path file.content with
      | (.ok (), store) =>
        ({ report with actions := report.actions ++ ["Wrote " ++ file.path.text] }, store)
      | (.error error, store) =>
        ({ report with errors := report.errors ++
          ["Failed to write " ++ file.path.text ++ ": " ++ error.message] }, store)
    else (report, store)) (report, store)

/-- Saves a model unless the snapshot holds it already; tells whether it was written. -/
def saveSnapshot (session : Session σ) (model : Model) : Except FileError Bool × Session σ :=
  let path := session.snapshotPath
  match Model.schema.render path model with
  | .error error => (.error error, session)
  | .ok content =>
    let checksum := Sha256.checksum content
    -- A snapshot that the session remembers and that is still there is not written again.
    if session.checksum = some checksum ∧ Storage.contains session.store path then
      (.ok false, session)
    else
      match Storage.write session.store path content with
      | (.ok (), store) => (.ok true, { session with store, checksum := some checksum })
      | (.error error, store) => (.error error, { session with store })

/-- Saving the model would write the snapshot. -/
def snapshotChanges (session : Session σ) (model : Model) : Except FileError Bool := do
  let path := session.snapshotPath
  let content ← Model.schema.render path model
  -- The file is asked for as well, since it may have been removed.
  return session.checksum != some (Sha256.checksum content) ||
    !Storage.contains session.store path

/-- What a sync would do. -/
def rehearse (session : Session σ) (model : Model) (files : List PlannedFile) :
    Except FileError SyncReport := do
  -- Nothing is written, so the session is not handed on.
  let writes := (files.filter (·.isChanged)).map fun file =>
    "[dry-run] Would write " ++ file.path.text
  let saves := if ← session.snapshotChanges model then
    ["[dry-run] Would save " ++ session.snapshotPath.text] else []
  return { SyncReport.empty with actions := writes ++ saves }

/-- Writes what has changed and saves the model; every failure is reported by itself. -/
def perform (session : Session σ) (model : Model) (files : List PlannedFile) :
    SyncReport × Session σ :=
  let (report, store) := writeFiles session.store .empty files
  let path := session.snapshotPath.text
  -- The snapshot is saved also when some of the files were refused.
  match { session with store }.saveSnapshot model with
  | (.ok true, session) =>
    ({ report with actions := report.actions ++ ["Saved " ++ path] }, session)
  | (.ok false, session) => (report, session)
  | (.error error, session) =>
    ({ report with errors := report.errors ++
      ["Failed to save " ++ path ++ ": " ++ error.message] }, session)

/-- A valid model with the plan for it. -/
def prepare (session : Session σ) (model : Model) : Except SyncError (List PlannedFile) :=
  -- A broken rule is told before a file that cannot be read.
  match model.validate, session.plan model with
  | .error error, _ => .error (.model error)
  | .ok (), .error error => .error (.file error)
  | .ok (), .ok files => .ok files

/-- Brings all files and the snapshot in step with a model, or tells what that would do. -/
def sync (session : Session σ) (model : Model) (dryRun : Bool) :
    Except SyncError SyncReport × Session σ :=
  match session.prepare model with
  | .error error => (.error error, session)
  | .ok files =>
    -- A rehearsal changes neither the files nor the session.
    if dryRun then
      (((session.rehearse model files).map SyncReport.concluded).mapError .file, session)
    else
      let (report, session) := session.perform model files
      (.ok report.concluded, session)

/-- How the text of a generated file departs from the text it should have. -/
def fileDrift (session : Session σ) (kind : FileKind) (current fresh : String) : Option Drift :=
  if session.merges kind then
    -- Only the managed region is compared, since the rest belongs to the user.
    match Managed.locate current.toList, Managed.locate fresh.toList with
    | none, _ => some .regionMissing
    | some present, some wanted => if present.managed = wanted.managed then none else some .regionDiffers
    | some _, none => none
  else if current = fresh then none
  else some .contentDiffers

/-- How a hardware file departs from the text it should have. -/
def hardwareDrift (content current : String) : Option Drift :=
  -- The hardware file has no region, so its whole text counts.
  let expected := Sha256.checksum content
  let actual := Sha256.checksum current
  if expected = actual then none else some (.checksumMismatch expected actual)

/-- The report with a file, which has drifted if it is missing. -/
def checkFile (session : Session σ) (path : Path) (drift : String → Option Drift)
    (report : CheckReport) : Except FileError CheckReport := do
  -- A file that is missing is recorded as such.
  match ← Storage.readOptional session.store path with
  | none => return report.record path.text (some .missing)
  | some current => return report.record path.text (drift current)

/-- The report with the hardware file, if it is to be written. -/
def checkHardware (session : Session σ) (model : Model) (report : CheckReport) :
    Except FileError CheckReport :=
  -- The file is checked only if the settings and the model ask for it.
  match session.hardwareContent model with
  | none => .ok report
  | some content => session.checkFile session.hardwarePath (hardwareDrift content) report

/-- The report with the snapshot, if it is there and cannot be read. -/
def checkSnapshot (session : Session σ) (report : CheckReport) : Except FileError CheckReport := do
  match ← Storage.readOptional session.store session.snapshotPath with
  -- A snapshot that is missing is no issue.
  | none => return report
  | some content =>
    match Model.schema.parse session.snapshotPath content with
    | .ok _ => return report
    | .error error => return report.recordSnapshotError error.message

/-- Compares all files with what a model asks for. -/
def check (session : Session σ) (model : Model) : Except FileError CheckReport := do
  -- The files come first, then the hardware file, and the snapshot last.
  let report ← FileKind.all.foldlM (fun report kind =>
    session.checkFile (session.filePath kind)
      (fun current => session.fileDrift kind current (session.generate model kind)) report) .empty
  session.checkSnapshot (← session.checkHardware model report)

end Session

end NixKeeper
