import NixKeeper.Files.Lines
import NixKeeper.Files.Shell
import NixKeeper.Files.Statement
import NixKeeper.Nix.Channel

/-! The settings of a user's home: their text, and what a text says about the user. -/

namespace NixKeeper.Files.Home

/-- A program that is switched on. -/
def enableProgram (program : List Char) : List Line :=
  switchOn ("programs.".toList ++ program ++ ".enable".toList)

/-- The identity of the user in version control, as far as it is known. -/
def gitLines (user : User) : List Line :=
  match user.gitName, user.gitEmail with
  -- Without an identity there is nothing to put into a block.
  | none, none => enableProgram "git".toList
  | name, email =>
    block "programs.git = \x7b".toList
      (switchOn "enable".toList ++
        (match name with
          | some name => assignText "userName".toList name.toList
          | none => []) ++
        match email with
          | some email => assignText "userEmail".toList email.toList
          | none => [])
      "\x7d;".toList

/-- The managed lines. -/
def regionLines (renames : Renames) (user : User) : List Line :=
  -- The program is the shell's own, or the usual one where none is known.
  assignText "home.username".toList user.username.toList ++
    assignText "home.homeDirectory".toList ("/home/".toList ++ user.username.toList) ++ blank ++
    block "home.packages = with pkgs; [".toList
      (user.packages.flatMap fun package => line (renames.package package.name).toList)
      "];".toList ++ blank ++
    gitLines user ++
    enableProgram ((shellProgram? user.shell.toList).getD "bash".toList)

/-- The lines of the file. -/
def lines (renames : Renames) (user : User) (nixVersion : String) : List Line :=
  -- The version of the state stands below the region, where it is not read back.
  line "\x7b config, pkgs, ... \x7d:".toList ++ blank ++
    block ['{']
      (region (regionLines renames user) ++ blank ++
        assignText "home.stateVersion".toList (Nix.stateVersion nixVersion.toList))
      ['}']

/-- The text of the file. -/
def text (renames : Renames) (user : User) (nixVersion : String) : List Char :=
  render (lines renames user nixVersion)

/-- The list or block that is open. -/
inductive Context where
  | top
  | packages
  | git
deriving DecidableEq

/-- The user read so far, and the open context. -/
structure Progress where
  user : User
  context : Context

/-- Adds the packages in a part of the list, which is left if the part closes it. -/
def readPackages (renames : Renames) (progress : Progress) (part : List Char × Bool) : Progress :=
  -- The bracket that ends the list leads out of it.
  let packages := collectPackages renames progress.user.packages part.1
  ⟨{ progress.user with packages }, if part.2 then .top else .packages⟩

/-- The user with the identity that a statement assigns to either of two paths. -/
def readIdentity? (namePath emailPath : String) (clean : List Char) (user : User) : Option User :=
  match assignedText? namePath clean with
  -- The name is looked for first, but no statement can assign both.
  | some name => some { user with gitName := some name }
  | none => (assignedText? emailPath clean).map fun email => { user with gitEmail := some email }

/-- The shells that a statement can switch on. -/
def knownShells : List String :=
  ["bash", "fish", "zsh"]

/-- The shell that a statement switches on. -/
def enabledShell? (clean : List Char) : Option (List Char) := do
  let path ← assigns? Text.isPathChar "true" clean
  let program ← Text.between? "programs.".toList ".enable".toList path
  -- Other programs may be switched on too, and say nothing about the shell.
  if knownShells.contains (String.ofList program) then some program else none

/-- The user with a shell; an expression that names the same program stays as it is. -/
def withShell (user : User) (program : List Char) : User :=
  -- The same program may be named in another way, which is worth keeping.
  if shellProgram? user.shell.toList = some program then user
  else { user with shell := String.ofList ("pkgs.".toList ++ program) }

/-- Reads a line outside of lists and blocks. -/
def readTop (renames : Renames) (progress : Progress) (statement : Statement) : Progress :=
  let clean := statement.clean
  -- A list may be opened and closed on one line.
  if "home.packages".toList.isPrefixOf clean then
    readPackages renames progress (listOpening statement.raw)
  else if assigned? "programs.git" clean = some ['{'] then { progress with context := .git }
  else
    match readIdentity? "programs.git.userName" "programs.git.userEmail" clean progress.user with
    | some user => { progress with user }
    | none =>
      match enabledShell? clean with
      | some program => { progress with user := withShell progress.user program }
      | none => progress

/-- Reads a line in the context that is open. -/
def readStatement (renames : Renames) (progress : Progress) (statement : Statement) : Progress :=
  match progress.context with
  | .top => readTop renames progress statement
  | .packages => readPackages renames progress (listLine statement.raw)
  | .git =>
    -- The identity ends with its block, whatever stands behind the brace.
    if closes statement.clean then { progress with context := .top }
    else
      match readIdentity? "userName" "userEmail" statement.clean progress.user with
      | some user => { progress with user }
      | none => progress

/-- The user with what the file says. -/
def readUser (renames : Renames) (text : List Char) (user : User) : User :=
  ((statements text).foldl (readStatement renames) ⟨user, .top⟩).user

/-- The model with what the file says about the user at an index, if there is one. -/
def read (renames : Renames) (text : List Char) (model : Model) (index : Nat) : Model :=
  { model with users := model.users.modify index (readUser renames text) }

end NixKeeper.Files.Home
