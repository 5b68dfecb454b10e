import NixKeeper.Managed.Region
import NixKeeper.Model.Edit
import NixKeeper.Model.Renames
import NixKeeper.Nix.Literal
import NixKeeper.Text.Name

/-! The statements of a managed region, one a line, and the parts of them that all files share. -/

namespace NixKeeper.Files

/-- A line of a managed region that holds a statement or a part of one. -/
structure Statement where
  /-- The line without the blanks around it. -/
  raw : List Char
  /-- The line without its semicolon as well. -/
  clean : List Char
deriving DecidableEq

/-- A line that is neither empty nor the beginning of a comment. -/
def isStatement (raw : List Char) : Bool :=
  !raw.isEmpty && raw.head? != some '#' && !(['/', '*'].isPrefixOf raw)

/-- The text without one semicolon at its end. -/
def dropSemicolon (text : List Char) : List Char :=
  -- Only the last semicolon belongs to the statement.
  match text.reverse with
  | ';' :: rest => rest.reverse
  | _ => text

/-- The statements of the managed region of a text; without a region there are none. -/
def statements (text : List Char) : List Statement :=
  match Managed.locate text with
  | none => []
  -- Each line stands for itself; what is written outside the region says nothing.
  | some region =>
    (((Text.lines region.body).map Text.trim).filter isStatement).map fun raw =>
      ⟨raw, Text.trimEnd (dropSemicolon raw)⟩

/-- What a statement assigns to a path. -/
def assigned? (path : String) (clean : List Char) : Option (List Char) := do
  -- A longer path fails at the equals sign, so the path need not be delimited.
  let rest ← path.toList.isPrefixOf? clean
  let rest ← ['='].isPrefixOf? (Text.trimStart rest)
  return Text.trim rest

/-- The text that a statement assigns to a path. -/
def assignedText? (path : String) (clean : List Char) : Option String :=
  (assigned? path clean).bind Nix.unquote?

/-- The name of a statement that assigns a given text to a name of some characters. -/
def assigns? (isNamed : Char → Bool) (value : String) (clean : List Char) : Option (List Char) := do
  let name := clean.takeWhile isNamed
  if name.isEmpty then none
  let rest ← ['='].isPrefixOf? (Text.trimStart (clean.dropWhile isNamed))
  -- The value is compared as a whole, so a comment behind it spoils the statement.
  if Text.trimStart rest = value.toList then some name else none

/-- A statement begins with a closing brace. -/
def closes (clean : List Char) : Bool :=
  clean.head? == some '}'

/-- A statement ends with an opening brace. -/
def opens (clean : List Char) : Bool :=
  clean.getLast? == some '{'

/-- The words of a list of packages that name no package. -/
def listWords : List (List Char) :=
  ["with".toList, "pkgs;".toList, "[".toList, "]".toList, "];".toList]

/-- A word without the brackets and semicolons that stick to it. -/
def bareWord (word : List Char) : List Char :=
  (Text.dropEndWhile (· == ']') (Text.dropEndWhile (· == ';') word)).dropWhile (· == '[')

/-- The package names in a part of a list; a comment ends the part. -/
def packageWords (text : List Char) : List (List Char) :=
  -- A comment reaches to the end of the line, which is the end of the part.
  ((((Text.words text).takeWhile (·.head? != some '#')).filter (!listWords.contains ·)).map
    bareWord).filter (!·.isEmpty)

/-- The packages with those that a part of a list names. -/
def collectPackages (renames : Renames) (packages : List Package) (text : List Char) :
    List Package :=
  -- A package that is there already keeps its description.
  (packageWords text).foldl (fun packages word =>
    (addPackage packages ⟨renames.package (String.ofList word), "Imported"⟩).2) packages

/-- What a line adds to an open list, and whether it closes the list. -/
def listLine (raw : List Char) : List Char × Bool :=
  match Text.splitFirst [']'] raw with
  -- Nothing behind the bracket belongs to the list.
  | some (inside, _) => (inside, true)
  | none => (raw, false)

/-- What the opening line of a list adds to it, and whether it closes the list. -/
def listOpening (raw : List Char) : List Char × Bool :=
  -- A line without a bracket says nothing of the list.
  match Text.splitFirst ['['] raw with
  | some (_, rest) => listLine rest
  | none => ([], false)

end NixKeeper.Files
