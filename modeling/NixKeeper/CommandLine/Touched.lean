import NixKeeper.CommandLine.Run

/-! The files that a command may read or write. -/

namespace NixKeeper.CommandLine

/-- The files of a place whose settings are known. -/
def placePaths (root : Path) (settings : Settings) : List Path :=
  -- The paths do not depend on what is stored under them.
  let session := Session.withSettings () root settings
  FileKind.all.map session.filePath ++ [session.hardwarePath, session.snapshotPath]

/-- The files that a command needs before its settings are known. -/
def firstPaths (root : Path) : Command → List Path
  -- Scanning reads one file, and every other command begins with the settings.
  | .scanOptions file _ _ => [.ofText file]
  | _ => [root.join Settings.fileName]

/-- The files that a command needs once its settings are known. -/
def laterPaths {σ : Type} [Storage σ] (store : σ) (root : Path) : Command → List Path
  | .scanOptions _ _ _ => []
  | _ =>
    match Settings.load store root with
    | .ok settings => placePaths root settings
    -- Without settings the command fails before it needs any other file.
    | .error _ => []

end NixKeeper.CommandLine
