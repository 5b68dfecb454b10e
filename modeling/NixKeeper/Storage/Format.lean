import NixKeeper.Document.Json.Parser
import NixKeeper.Document.Json.Printer
import NixKeeper.Document.Toml.Parser
import NixKeeper.Document.Toml.Printer
import NixKeeper.Storage.Basic

/-! Structured files, whose format is told by the extension of their paths. -/

namespace NixKeeper

namespace FileFormat

/-- The format that an extension stands for, in letters of either case. -/
def ofExtension? (extension : List Char) : Option FileFormat :=
  -- Only letters of ASCII can stand in the two extensions.
  let lower := extension.map Char.toLower
  if lower = "toml".toList then some .toml
  else if lower = "json".toList then some .json
  else none

/-- The document that a text holds. -/
def parse? : FileFormat → String → Option Document
  -- Each format has a parser of its own.
  | .toml => Toml.parse?
  | .json => Json.parse?

/-- The text of a document. -/
def render? : FileFormat → Document → Option String
  -- Only tables can be written in the first format.
  | .toml, document => Toml.pretty? document
  | .json, document => some (Json.pretty document)

/-- A list in the place of a record may not be longer than the record. -/
def isExact : FileFormat → Bool
  -- Only the second format counts the items of such a list.
  | .toml => false
  | .json => true

end FileFormat

/-- How a value is read from a document, told whether the format is exact, and how it is written. -/
structure Schema (α : Type) where
  read : Bool → Document → Option α
  write : α → Document

namespace Path

/-- The format of the file at a path. -/
def format (path : Path) : Except FileError FileFormat :=
  -- A path without an extension is refused like one with an unknown extension.
  let extension := path.extension?.getD []
  match FileFormat.ofExtension? extension with
  | some format => .ok format
  | none => .error (.unsupportedFormat (String.ofList extension))

end Path

namespace Schema

variable {α : Type}

/-- The value that the content of a file holds. -/
def parse (schema : Schema α) (path : Path) (content : String) : Except FileError α := do
  let format ← path.format
  -- A text of another format and a document of another kind are the same failure.
  match (format.parse? content).bind (schema.read format.isExact) with
  | some value => .ok value
  | none => .error (.unreadable path.text format)

/-- The content of a file that holds a value. -/
def render (schema : Schema α) (path : Path) (value : α) : Except FileError String := do
  -- The format is told by the path.
  let format ← path.format
  match format.render? (schema.write value) with
  | some content => .ok content
  | none => .error (.unwritable path.text format)

/-- The value that a file holds. -/
def load {σ : Type} [Storage σ] (schema : Schema α) (store : σ) (path : Path) :
    Except FileError α := do
  -- The file is read first, so that a missing one is told before an unknown format.
  schema.parse path (← Storage.read store path)

/-- Writes a value to a file. -/
def save {σ : Type} [Storage σ] (schema : Schema α) (store : σ) (path : Path) (value : α) :
    Except FileError Unit × σ :=
  match schema.render path value with
  -- A value that cannot be written leaves the file alone.
  | .ok content => Storage.write store path content
  | .error error => (.error error, store)

end Schema

end NixKeeper
