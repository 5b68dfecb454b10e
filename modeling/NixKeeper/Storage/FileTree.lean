import NixKeeper.Storage.Basic
import NixKeeper.Table
import NixKeeper.Text.Utf8

/-!
A tree of folders and files with a working folder, and the rules for reading and replacing files.

A file is written next to its place and then moved there, so that a reader never meets half of it.
-/

namespace NixKeeper

/-- What a tree holds at a place. -/
inductive FileTree.Entry where
  | folder
  | file (content : ByteArray)

/-- Two files are the same entry if they have the same bytes. -/
instance : DecidableEq FileTree.Entry
  | .folder, .folder => isTrue rfl
  | .folder, .file _ => isFalse nofun
  | .file _, .folder => isFalse nofun
  | .file one, .file other =>
    decidable_of_iff (one.data = other.data) (by rw [FileTree.Entry.file.injEq, ByteArray.ext_iff])

/-- Folders and files below a common top. -/
structure FileTree where
  /-- The entries by their places; the top has none. -/
  entries : Table FileTree.Entry
  /-- The place of the folder from which relative paths start. -/
  working : List String
deriving DecidableEq

namespace FileTree

/-- A tree with an empty working folder. -/
def empty : FileTree :=
  ⟨Table.empty.insert "work" .folder, ["work"]⟩

/-- The name of a place, under which its entry is kept. -/
def placeName (place : List String) : String :=
  String.ofList (Text.join ['/'] (place.map String.toList))

/-- What stands at a place. -/
def entry? (tree : FileTree) (place : List String) : Option Entry :=
  -- The top is a folder that is always there.
  if place.isEmpty then some .folder else tree.entries.get? (placeName place)

/-- The tree with an entry set. -/
def withEntry (tree : FileTree) (place : List String) (entry : Entry) : FileTree :=
  { tree with entries := tree.entries.insert (placeName place) entry }

/-- The steps of a path from folder to folder. -/
def steps (path : List Char) : List String :=
  -- Slashes in a row count as one.
  ((path.splitOn '/').filter (!·.isEmpty)).map String.ofList

/-- A path ends with a slash, so that it can only mean a folder. -/
def meansFolder (path : List Char) : Bool :=
  path.getLast? == some '/'

/-- Follows the steps of a path; every step has to start in a folder. -/
def follow (tree : FileTree) (place : List String) : List String → Except SystemCause (List String)
  | [] => .ok place
  | step :: rest =>
    match tree.entry? place with
    | none => .error .noEntry
    | some (.file _) => .error .notDirectory
    | some .folder =>
      -- Names have a limit in bytes, whether there is such an entry or not.
      if 255 < step.utf8ByteSize then .error .nameTooLong
      else if step = "." then follow tree place rest
      -- Above the top there is the top again.
      else if step = ".." then follow tree place.dropLast rest
      else follow tree (place ++ [step]) rest

/-- Refuses a text that no path can be. -/
def checkPath (path : List Char) : Except SystemCause Unit :=
  -- A path with a zero character never reaches the system.
  if path.contains '\x00' then .error .nulInName
  else if path.isEmpty then .error .noEntry
  else if 4096 ≤ (String.ofList path).utf8ByteSize then .error .nameTooLong
  else .ok ()

/-- The place from which a path starts. -/
def start (tree : FileTree) (path : List Char) : List String :=
  -- A path from the top does not depend on the working folder.
  if path.head? = some '/' then [] else tree.working

/-- What stands at a path. -/
def find (tree : FileTree) (path : List Char) : Except SystemCause Entry := do
  checkPath path
  let place ← tree.follow (tree.start path) (steps path)
  match tree.entry? place with
  | none => .error .noEntry
  | some (.file content) =>
    -- A slash at the end asks for a folder, which a file is not.
    if meansFolder path then .error .notDirectory else .ok (.file content)
  | some .folder => .ok .folder

/-- There is a file or a folder at a path. -/
def containsPath (tree : FileTree) (path : List Char) : Bool :=
  (tree.find path).isOk

/-- There is a folder at a path. -/
def containsFolder (tree : FileTree) (path : List Char) : Bool :=
  -- A path that cannot be followed leads to no folder.
  match tree.find path with
  | .ok .folder => true
  | _ => false

/-- There is a file at a path. -/
def containsFile (tree : FileTree) (path : List Char) : Bool :=
  -- A path that cannot be followed leads to no file.
  match tree.find path with
  | .ok (.file _) => true
  | _ => false

/-- The content of the file at a path, if there is one. -/
def content? (tree : FileTree) (path : List Char) : Option ByteArray :=
  -- A folder has no content.
  match tree.find path with
  | .ok (.file content) => some content
  | _ => none

/-- The last step of a path below the folder that the other steps lead to. -/
inductive Target where
  /-- A name in a folder. -/
  | name (folder : List String) (name : String)
  /-- A folder, by a path that does not name it. -/
  | itself

/-- The folder and the name that a path leads to, whether there is something or not. -/
def target (tree : FileTree) (path : List Char) : Except SystemCause Target := do
  checkPath path
  -- The last step need not exist, but the folder that it is taken in has to.
  let all := steps path
  let folder ← tree.follow (tree.start path) all.dropLast
  match tree.entry? folder with
  | none => .error .noEntry
  | some (.file _) => .error .notDirectory
  | some .folder =>
    match all.getLast? with
    | none => .ok .itself
    | some name =>
      -- These steps name no entry that could be made or replaced.
      if name = "." ∨ name = ".." then .ok .itself
      else if 255 < name.utf8ByteSize then .error .nameTooLong
      else .ok (.name folder name)

/-- Makes a single folder. -/
def makeFolder (tree : FileTree) (path : List Char) : Except SystemCause FileTree := do
  match ← tree.target path with
  | .itself => .error .exists
  | .name folder name =>
    let place := folder ++ [name]
    -- A file at the place is as much in the way as a folder.
    if (tree.entry? place).isSome then .error .exists else .ok (tree.withEntry place .folder)

/-- A path read from its end, without the slashes and the single points that end it. -/
def trimBack : List Char → List Char
  -- A slash that stands alone is the root.
  | ['/'] => ['/']
  | '/' :: rest => trimBack rest
  | '.' :: '/' :: rest => trimBack ('/' :: rest)
  | path => path

/-- The path of the folder that holds what a path leads to. -/
def parent? (path : List Char) : Option (List Char) :=
  -- From the end, the last step reaches to the first slash.
  let trimmed := trimBack path.reverse
  if trimmed.isEmpty ∨ trimmed = ['/'] then none
  else some (trimBack (trimmed.dropWhile (· != '/'))).reverse

/--
Makes a folder with all those around it that are missing.

The fuel bounds the number of folders; those made before a failure stay.
-/
def makeFolders : Nat → FileTree → List Char → Except SystemCause Unit × FileTree
  | 0, tree, _ => (.error .noEntry, tree)
  | fuel + 1, tree, path =>
    if path.isEmpty then (.ok (), tree)
    else
      match tree.makeFolder path with
      | .ok made => (.ok (), made)
      | .error .noEntry =>
        -- Only a missing folder around this one is a reason to go up.
        match makeFolders fuel tree ((parent? path).getD []) with
        | (.error cause, left) => (.error cause, left)
        | (.ok (), left) =>
          match left.makeFolder path with
          | .ok made => (.ok (), made)
          | .error cause => (if left.containsFolder path then .ok () else .error cause, left)
      -- A folder that is there already is what was asked for.
      | .error cause => (if tree.containsFolder path then .ok () else .error cause, tree)

/-- Makes a folder with all those around it that are missing. -/
def makeAll (tree : FileTree) (path : List Char) : Except SystemCause Unit × FileTree :=
  makeFolders (path.length + 1) tree path

/-- Moves a finished file to its path; it may take the place of a file, but not of a folder. -/
def moveInto (tree : FileTree) (path : List Char) (content : ByteArray) :
    Except SystemCause FileTree := do
  match ← tree.target path with
  | .itself => .error .busy
  | .name folder name =>
    let place := folder ++ [name]
    -- A path that ends with a slash means a folder, which a file cannot become.
    if meansFolder path then .error .notDirectory
    else if tree.entry? place = some .folder then .error .isDirectory
    else .ok (tree.withEntry place (.file content))

/-- The path of the folder in which a file is prepared. -/
def stagingFolder (path : List Char) : List Char :=
  -- A path of a single step is prepared in the working folder.
  let folder := (parent? path).getD []
  if folder.isEmpty then ['.'] else folder

/-- Writes a file, after making the folders around it. -/
def writeBytes (tree : FileTree) (path : Path) (content : ByteArray) :
    Except FileError Unit × FileTree :=
  let folder := stagingFolder path.text.toList
  match tree.makeAll folder with
  | (.error cause, left) => (.error (.system (String.ofList folder) cause), left)
  | (.ok (), left) =>
    -- The folders that were made on the way stay even if the file cannot be put in place.
    match left.moveInto path.text.toList content with
    | .ok written => (.ok (), written)
    | .error cause => (.error (.system path.text cause), left)

/-- The text of a file, which has to be UTF-8. -/
def readText (tree : FileTree) (path : List Char) : Except SystemCause String := do
  match ← tree.find path with
  | .folder => .error .isDirectory
  | .file content =>
    -- Bytes that are no text are refused as a whole.
    match String.fromUTF8? content with
    | some text => .ok text
    | none => .error .notText

instance : Storage FileTree where
  contains tree path := tree.containsFile path.text.toList
  read tree path :=
    match tree.readText path.text.toList with
    | .ok text => .ok text
    | .error cause => .error (.system path.text cause)
  write tree path text := tree.writeBytes path text.toUTF8

/-- Removes a file. -/
def remove (tree : FileTree) (path : List Char) : Except SystemCause FileTree := do
  match ← tree.target path with
  | .itself => .error .isDirectory
  | .name folder name =>
    -- What the path means has to be a file.
    match ← tree.find path with
    | .folder => .error .isDirectory
    | .file _ => .ok { tree with entries := tree.entries.erase (placeName (folder ++ [name])) }

/-- The text that shows an entry: that of a file, or nothing for a folder. -/
def Entry.shown : Entry → String
  -- Bytes that are no text are shown as replacement characters.
  | folder => ""
  | file content => String.ofList (Text.decode content.toList)

/-- The name and the text that show an entry of the working folder. -/
def shownEntry? (tree : FileTree) (entry : String × Entry) : Option (String × String) :=
  -- Entries outside of the working folder are not shown.
  ((placeName tree.working).toList ++ ['/']).isPrefixOf? entry.1.toList |>.map fun name =>
    (String.ofList (if entry.2 = .folder then name ++ ['/'] else name), entry.2.shown)

/-- The contents of the working folder by name; the name of a folder ends with a slash. -/
def listing (tree : FileTree) : Table String :=
  .ofList (tree.entries.entries.filterMap tree.shownEntry?)

end FileTree

end NixKeeper
