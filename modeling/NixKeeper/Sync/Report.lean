import NixKeeper.Document.Basic
import NixKeeper.Storage.Format

/-! What a check and a sync report. -/

namespace NixKeeper

/-- How well a file or a whole machine agrees with the model, from best to worst. -/
inductive CheckStatus where
  | healthy
  | missing
  | drifted
  | broken
deriving DecidableEq

namespace CheckStatus

/-- All states from best to worst. -/
def all : List CheckStatus :=
  [healthy, missing, drifted, broken]

/-- The place of a state in the order. -/
def rank : CheckStatus → Nat
  -- A status with a higher rank takes the place of a lower one.
  | healthy => 0
  | missing => 1
  | drifted => 2
  | broken => 3

/-- The worse of two states. -/
def worse (first second : CheckStatus) : CheckStatus :=
  -- Of two equal states it does not matter which is taken.
  if first.rank < second.rank then second else first

/-- The name of a state. -/
def name : CheckStatus → String
  -- These are the names in the documents.
  | healthy => "Healthy"
  | missing => "Missing"
  | drifted => "Drifted"
  | broken => "Broken"

/-- The state that has a name. -/
def ofName? (name : String) : Option CheckStatus :=
  all.find? (·.name == name)

end CheckStatus

/-- How a file departs from what the model asks for. -/
inductive Drift where
  | missing
  | regionMissing
  | regionDiffers
  | contentDiffers
  | checksumMismatch (expected actual : String)
deriving DecidableEq

namespace Drift

/-- The state of a file with a drift. -/
def status : Drift → CheckStatus
  -- Only a missing file is told apart from the other findings.
  | missing => .missing
  | _ => .drifted

/-- The words for a drift. -/
def message : Drift → String
  -- Both checksums are named where they differ.
  | missing => "file not found"
  | regionMissing => "managed region not found"
  | regionDiffers => "managed region differs from model"
  | contentDiffers => "differs from model"
  | checksumMismatch expected actual =>
    s!"checksum mismatch: expected {expected}, got {actual}"

/-- The name of a kind of drift. -/
def name : Drift → String
  | missing => "missing"
  | regionMissing => "region_missing"
  | regionDiffers => "region_differs"
  | contentDiffers => "content_differs"
  | checksumMismatch _ _ => "checksum_mismatch"

/-- The document of a drift. -/
def document : Drift → Document
  -- Only a checksum comes with further fields.
  | checksumMismatch expected actual =>
    .table [("kind", .text "checksum_mismatch"), ("expected", .text expected),
      ("actual", .text actual)]
  | drift => .table [("kind", .text drift.name)]

/-- The drift of a kind that has no further fields. -/
def plain? (kind : String) : Option Drift :=
  [missing, regionMissing, regionDiffers, contentDiffers].find? (·.name == kind)

/--
The drift that a document holds: a table with its kind, or a list that begins with it.

The kind may stand behind other fields, so all of them have to be readable.
-/
def ofDocument? (exact : Bool) : Document → Option Drift
  | .table entries =>
    -- Two kinds in one table would leave it open which one counts.
    if !Document.entriesReadable entries || 1 < entries.countP (·.1 == "kind") then none
    else do
      let kind ← Document.required entries "kind" Document.asText
      if kind = "checksum_mismatch" then
        let fields ← (Document.table (entries.filter (·.1 != "kind"))).asRecord exact
          ["expected", "actual"]
        let expected ← Document.required fields "expected" Document.asText
        let actual ← Document.required fields "actual" Document.asText
        return checksumMismatch expected actual
      else plain? kind
  | .list [.text "checksum_mismatch", .text expected, .text actual] =>
    some (checksumMismatch expected actual)
  | .list [.text kind] => plain? kind
  | _ => none

end Drift

/-- What was found about one file. -/
structure FileCheck where
  path : String
  status : CheckStatus
  drift : Option Drift
deriving DecidableEq

/-- What was found about all files and the snapshot. -/
structure CheckReport where
  status : CheckStatus
  files : List FileCheck
  /-- Why the snapshot could not be read, if there is one that could not. -/
  snapshotError : Option String
deriving DecidableEq

namespace CheckReport

/-- The report of a check that has found nothing yet. -/
def empty : CheckReport :=
  ⟨.healthy, [], none⟩

/-- The report with one more file. -/
def record (report : CheckReport) (path : String) (drift : Option Drift) : CheckReport :=
  -- A file without a drift is healthy, and the whole is as bad as its worst part.
  let status := (drift.map Drift.status).getD .healthy
  { report with
    status := report.status.worse status
    files := report.files ++ [⟨path, status, drift⟩] }

/-- The report with a snapshot that could not be read, which is worse than any drift. -/
def recordSnapshotError (report : CheckReport) (message : String) : CheckReport :=
  { report with status := .broken, snapshotError := some message }

/-- The files that depart from the model, and how they do. -/
def issues (report : CheckReport) : List (String × Drift) :=
  report.files.filterMap fun file => file.drift.map (file.path, ·)

/-- The number of files in a state. -/
def count (report : CheckReport) (status : CheckStatus) : Nat :=
  report.files.countP (·.status == status)

/-- Nothing departs from the model. -/
def isHealthy (report : CheckReport) : Bool :=
  report.status == .healthy

end CheckReport

/-- The document of what was found about one file. -/
def FileCheck.document (file : FileCheck) : Document :=
  -- The drift is written only where there is one.
  .table ([("path", .text file.path), ("status", .text file.status.name)] ++
    Document.field? "drift" Drift.document file.drift)

/-- What a document tells about one file. -/
def FileCheck.ofDocument? (exact : Bool) (document : Document) : Option FileCheck := do
  -- The drift may be missing, or null.
  let fields ← document.asRecord exact ["path", "status", "drift"]
  let path ← Document.required fields "path" Document.asText
  let status ← Document.required fields "status" (Document.asName exact CheckStatus.ofName?)
  let drift ← Document.optional fields "drift" (Document.asNullable (Drift.ofDocument? exact)) none
  return { path, status, drift }

/-- The document of a report. -/
def CheckReport.document (report : CheckReport) : Document :=
  -- The error of the snapshot is written only where there is one.
  .table ([("status", .text report.status.name),
      ("files", .list (report.files.map FileCheck.document))] ++
    Document.field? "snapshot_error" .text report.snapshotError)

/-- The report that a document holds. -/
def CheckReport.ofDocument? (exact : Bool) (document : Document) : Option CheckReport := do
  -- The error of the snapshot may be missing, or null.
  let fields ← document.asRecord exact ["status", "files", "snapshot_error"]
  let status ← Document.required fields "status" (Document.asName exact CheckStatus.ofName?)
  let files ← Document.required fields "files"
    (Document.asListOf (FileCheck.ofDocument? exact))
  let snapshotError ← Document.optional fields "snapshot_error"
    (Document.asNullable Document.asText) none
  return { status, files, snapshotError }

/-- How reports are kept in files. -/
def CheckReport.schema : Schema CheckReport :=
  ⟨CheckReport.ofDocument?, CheckReport.document⟩

/-- What a sync has done, and whether all of it succeeded. -/
structure SyncReport where
  success : Bool
  actions : List String
  errors : List String
deriving DecidableEq

/-- The report before anything was done. -/
def SyncReport.empty : SyncReport :=
  ⟨true, [], []⟩

/-- The report when all is done, which is a success if nothing failed. -/
def SyncReport.concluded (report : SyncReport) : SyncReport :=
  -- Failures are only collected on the way, so success is settled at the end.
  { report with success := report.errors.isEmpty }

end NixKeeper
