/-! Why a file could not be read or written. -/

namespace NixKeeper

/-- A format that structured files are kept in. -/
inductive FileFormat where
  | toml
  | json
deriving DecidableEq

/-- The name of a format. -/
def FileFormat.name : FileFormat → String
  -- These are the names in the messages.
  | .toml => "TOML"
  | .json => "JSON"

/-- What the operating system has against an operation. -/
inductive SystemCause where
  | noEntry
  | busy
  | exists
  | notDirectory
  | isDirectory
  | nameTooLong
  | nulInName
  | notText
deriving DecidableEq

/-- The words for a cause, with its number where it has one. -/
def SystemCause.message : SystemCause → String
  -- The texts are those of the system, with its numbers.
  | noEntry => "No such file or directory (os error 2)"
  | busy => "Device or resource busy (os error 16)"
  | .exists => "File exists (os error 17)"
  | notDirectory => "Not a directory (os error 20)"
  | isDirectory => "Is a directory (os error 21)"
  | nameTooLong => "File name too long (os error 36)"
  | nulInName => "file name contained an unexpected NUL byte"
  | notText => "stream did not contain valid UTF-8"

/-- Why a file could not be read or written. -/
inductive FileError where
  | system (path : String) (cause : SystemCause)
  | unreadable (path : String) (format : FileFormat)
  | unwritable (path : String) (format : FileFormat)
  | unsupportedFormat (extension : String)
  | notFound (path : String)
  | lockFailed (path : String)
deriving DecidableEq

/-- The sentence that tells a reader what went wrong. -/
def FileError.message : FileError → String
  -- What a parser says in detail is left out.
  | system path cause => s!"I/O error at {path}: {cause.message}"
  | unreadable path format =>
    s!"Failed to parse {format.name} file at {path}: the content does not fit"
  | unwritable path format =>
    s!"Failed to serialize {format.name} file at {path}: the value does not fit"
  | unsupportedFormat extension => s!"Unsupported config format: {extension}"
  | notFound path => s!"File not found: {path}"
  | lockFailed path => s!"Lock acquisition failed for {path}"

end NixKeeper
