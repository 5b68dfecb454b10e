import NixKeeper.Storage.Error
import NixKeeper.Storage.Path

/-! What every place that holds files can do. -/

namespace NixKeeper

/-- A place that holds texts under paths. -/
class Storage (σ : Type) where
  /-- There is a file at the path. -/
  contains : σ → Path → Bool
  /-- The text of the file at the path. -/
  read : σ → Path → Except FileError String
  /-- Puts a text at the path; a failed write may leave traces behind. -/
  write : σ → Path → String → Except FileError Unit × σ

namespace Storage

variable {σ : Type} [Storage σ]

/-- The text of a file that need not be there. -/
def readOptional (store : σ) (path : Path) : Except FileError (Option String) :=
  -- A file that is there and cannot be read is an error, not an absent file.
  if contains store path then (read store path).map some else .ok none

end Storage

end NixKeeper
