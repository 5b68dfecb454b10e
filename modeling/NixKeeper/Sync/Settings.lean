import NixKeeper.Model.Schema
import NixKeeper.Storage.Format

/-! The settings of the program itself, which stand in a file next to the generated ones. -/

namespace NixKeeper

/-- The settings of the program. -/
structure Settings where
  /-- The name of the file that the model is saved in. -/
  snapshotFile : String
  /-- The username that stands for an owner who has not been named yet. -/
  defaultUsername : String
  /-- Keeps what is written outside the managed region of the manifest. -/
  preserveManifestEdits : Bool
  /-- Writes the hardware file of the model. -/
  writeHardwareConfig : Bool
  /-- Changes of names beside the built-in ones. -/
  renames : Renames
deriving DecidableEq

namespace Settings

/-- The settings of a place without a settings file. -/
def initial : Settings :=
  ⟨"metadata.json", placeholderName, false, true, .empty⟩

/-- The name of the settings file. -/
def fileName : String :=
  "forge.toml"

/-- The document of the settings. -/
def document (settings : Settings) : Document :=
  -- The names in the document are those of the file.
  .table [
    ("snapshot_file", .text settings.snapshotFile),
    ("default_username", .text settings.defaultUsername),
    ("preserve_manifest_edits", .bool settings.preserveManifestEdits),
    ("write_hardware_config", .bool settings.writeHardwareConfig),
    ("renames", settings.renames.document)]

/-- The settings that a document holds; every one of them may be missing. -/
def ofDocument? (exact : Bool) (document : Document) : Option Settings := do
  let fields ← document.asRecord exact
    ["snapshot_file", "default_username", "preserve_manifest_edits", "write_hardware_config",
      "renames"]
  -- A field that is missing has its default.
  let snapshotFile ← Document.optional fields "snapshot_file" Document.asText initial.snapshotFile
  let defaultUsername ← Document.optional fields "default_username" Document.asText
    initial.defaultUsername
  let preserveManifestEdits ← Document.optional fields "preserve_manifest_edits" Document.asBool
    initial.preserveManifestEdits
  let writeHardwareConfig ← Document.optional fields "write_hardware_config" Document.asBool
    initial.writeHardwareConfig
  let renames ← Document.optional fields "renames" (Renames.ofDocument? exact) initial.renames
  return { snapshotFile, defaultUsername, preserveManifestEdits, writeHardwareConfig, renames }

/-- How settings are kept in files. -/
def schema : Schema Settings :=
  ⟨ofDocument?, document⟩

/-- The settings of a place, which are the initial ones if it has no settings file. -/
def load {σ : Type} [Storage σ] (store : σ) (root : Path) : Except FileError Settings :=
  let path := root.join fileName
  -- A settings file that is there has to be readable.
  if Storage.contains store path then schema.load store path else .ok initial

end Settings

/-- How models are kept in files. -/
def Model.schema : Schema Model :=
  ⟨Model.ofDocument?, Model.document⟩

/-- How tables of renames are kept in files. -/
def Renames.schema : Schema Renames :=
  ⟨Renames.ofDocument?, Renames.document⟩

/-- How hints are kept in files. -/
def OptionHint.schema : Schema (List OptionHint) :=
  -- The hints are a list at the top.
  ⟨fun exact => Document.asListOf (OptionHint.ofDocument? exact),
    fun hints => .list (hints.map OptionHint.document)⟩

end NixKeeper
