import NixKeeper.Text.Search

/-! The program that a shell expression names. -/

namespace NixKeeper.Files

/-- The last part of a shell expression, which points and slashes divide. -/
def shellProgram? (shell : List Char) : Option (List Char) :=
  -- Packages are named behind a point, and programs behind a slash.
  let program := Text.afterLast '/' (Text.afterLast '.' shell)
  if program.isEmpty then none else some program

end NixKeeper.Files
