import NixKeeper.CommandLine.Touched
import NixKeeper.Storage.FileTree

/-!
The program: it fetches the files that a command needs, runs the command on them and puts back what
has changed.
-/

namespace NixKeeper.CommandLine

/-- The tree with the file at a path, if there is one. -/
def fetchFile (tree : FileTree) (path : Path) : IO FileTree := do
  -- A file that cannot be read counts as absent.
  try
    let content ← IO.FS.readBinFile path.text
    return (tree.writeBytes path content).2
  catch _ => return tree

/-- The tree with all files that a command needs. -/
def fetchFiles (environment : Environment) (arguments : List String) : IO FileTree := do
  match readInvocation environment arguments with
  | .error _ => return .empty
  | .ok invocation =>
    match invocation.command, rootOf environment invocation with
    | some command, some root =>
      -- What is read later depends on what the first files say.
      let tree ← (firstPaths root command).foldlM fetchFile .empty
      (laterPaths tree root command).foldlM fetchFile tree
    | _, _ => return .empty

/-- Writes a file next to its place and moves it there. -/
def putFile (path : Path) (content : ByteArray) : IO Unit := do
  let folder := String.ofList (FileTree.stagingFolder path.text.toList)
  IO.FS.createDirAll folder
  -- Readers see the old content or the new one, and nothing in between.
  let staged := path.text ++ ".new"
  IO.FS.writeBinFile staged content
  IO.FS.rename staged path.text

/-- Writes the file at a path if a run has changed it. -/
def putChanged (before after : FileTree) (path : Path) : IO Unit :=
  match after.content? path.text.toList with
  | some content =>
    -- A file that is as it was is not touched.
    if before.content? path.text.toList == some content then pure () else putFile path content
  | none => pure ()

/-- Writes all files that a run has changed. -/
def putFiles (environment : Environment) (arguments : List String) (before after : FileTree) :
    IO Unit :=
  -- Only files that may have changed are compared and written.
  match readInvocation environment arguments with
  | .error _ => pure ()
  | .ok invocation =>
    match invocation.command, rootOf environment invocation with
    | some command, some root =>
      (laterPaths before root command).forM (putChanged before after)
    | _, _ => pure ()

end NixKeeper.CommandLine

open NixKeeper.CommandLine in
/-- Runs the program. -/
def main (arguments : List String) : IO UInt32 := do
  -- The files are read before the run and written behind it, so the run itself is pure.
  let environment : Environment := ⟨← IO.getEnv "HOME", ← IO.getEnv "NIXFORGE_DIR"⟩
  let before ← fetchFiles environment arguments
  let (outcome, after) := run environment arguments before
  putFiles environment arguments before after
  IO.print outcome.output
  IO.eprint outcome.errors
  return UInt32.ofNat outcome.code
