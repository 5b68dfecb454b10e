import NixKeeper.Managed.Block
import NixKeeper.Model.Basic
import NixKeeper.Text.Blank
import NixKeeper.Text.Search

/-! The options that a module source declares. -/

namespace NixKeeper

/-- The kind of an option, told by the words in its type. -/
def OptionKind.classify (type : List Char) : OptionKind :=
  -- The order matters where a type has several of the words.
  if Text.contains "bool".toList type then .boolean
  else if Text.contains "str".toList type || Text.contains "lines".toList type then .string
  else if Text.contains "int".toList type || Text.contains "port".toList type then .int
  else if Text.contains "list".toList type then .list
  else .other

namespace Nix

/-- A character of an option's name. -/
def isOptionChar (c : Char) : Bool :=
  c.isAlphanum || c == '_' || c == '.'

/-- The text behind a word, blanks, an equals sign and blanks. -/
def afterAssigned? (word text : List Char) : Option (List Char) := do
  -- Blanks are allowed on both sides of the equals sign.
  let rest ← word.isPrefixOf? text
  let rest ← ['='].isPrefixOf? (Text.trimStart rest)
  return Text.trimStart rest

/-- The name at the head of a declaration and the text behind the function that declares it. -/
def declared? (function text : List Char) : Option (List Char × List Char) := do
  -- A declaration starts with the longest name that stands here.
  let name := text.takeWhile isOptionChar
  if name.isEmpty then none
  let rest ← afterAssigned? name text
  let rest ← function.isPrefixOf? (("lib.".toList.isPrefixOf? rest).getD rest)
  return (name, Text.trimStart rest)

/-- A text in double quotes before a semicolon, on one line, and what follows. -/
def lineText? (text : List Char) : Option (List Char × List Char) := do
  let rest ← ['"'].isPrefixOf? text
  -- Quotes inside the text do not end it unless a semicolon follows them.
  let (inside, after) ← Text.splitFirst ['"', ';'] rest
  if inside.contains '\n' then none else some (inside, after)

/-- A text between pairs of single quotes before a semicolon, and what follows. -/
def indentedText? (text : List Char) : Option (List Char × List Char) := do
  -- The text ends at the closing quotes with their semicolon.
  let rest ← ['\'', '\''].isPrefixOf? text
  Text.splitFirst ['\'', '\'', ';'] rest

/-- The declaration of a switch: its name, its description and what follows. -/
def switch? (text : List Char) : Option ((List Char × List Char) × List Char) := do
  -- The description is all that the declaration has.
  let (name, rest) ← declared? "mkEnableOption".toList text
  let (description, after) ← lineText? rest
  return ((name, description), after)

/-- The head of an option with a block: its name and the text of the block and behind it. -/
def optionHead? (text : List Char) : Option (List Char × List Char) := do
  -- The brace has to follow at once.
  let (name, rest) ← declared? "mkOption".toList text
  let body ← ['{'].isPrefixOf? rest
  return (name, body)

/-- The expression assigned to a field of a block, up to the first semicolon. -/
def fieldAt? (field text : List Char) : Option (List Char) := do
  -- The value reaches to the first semicolon, whatever it holds.
  let rest ← field.isPrefixOf? text
  let rest ← ['='].isPrefixOf? (Text.trimStart rest)
  let (value, _) ← Text.splitFirst [';'] rest
  if value.isEmpty then none else some (Text.trim value)

/-- The first expression assigned to a field anywhere in a block. -/
def field? (field : String) (body : List Char) : Option (List Char) :=
  Text.findFirst (fieldAt? field.toList) body

/-- The first description in a block that is quoted in a given way. -/
def descriptionBy? (quoted? : List Char → Option (List Char × List Char)) (body : List Char) :
    Option (List Char) :=
  -- The first assignment whose text is in such quotes counts.
  Text.findFirst (fun text => do
    let rest ← afterAssigned? "description".toList text
    let (inside, _) ← quoted? rest
    return Text.trim inside) body

/-- What a block says about its option; a default stands in for an example. -/
def describe (name : String) (body : List Char) : OptionHint :=
  { name
    description := String.ofList
      -- Of the two ways to quote, the indented one is looked for first, wherever it stands.
      (((descriptionBy? indentedText? body).orElse fun _ => descriptionBy? lineText? body).getD [])
    kind := .classify ((field? "type" body).getD [])
    sample := ((field? "example" body).orElse fun _ => field? "default" body).map String.ofList }

/-- A name below a path, which may be empty. -/
def qualify (path name : List Char) : String :=
  String.ofList (if path.isEmpty then name else path ++ '.' :: name)

/-- The hint of a switch, if one was found. -/
def switchHint (path : List Char) (found : Option ((List Char × List Char) × List Char)) :
    List OptionHint :=
  -- A switch is of the Boolean kind, and its example is to switch on.
  match found with
  | some ((name, description), _) =>
    [⟨qualify path name, String.ofList description, .boolean, some "true"⟩]
  | none => []

/-- The hint of an option, if one was found and its block is closed. -/
def optionHint (path : List Char) (found : Option (List Char × List Char)) : List OptionHint :=
  -- A declaration whose block has no end is passed over.
  match found with
  | some (name, body) =>
    match Managed.splitBlock 0 false false body with
    | some (inside, _) => [describe (qualify path name) inside]
    | none => []
  | none => []

/-- The characters behind the first one that belong to what was found at it. -/
def skipAfter {α : Type} (skip : Nat) (rest : List Char) : Option (α × List Char) → Nat
  -- The whole stretch is skipped but for its first character, which is passed now.
  | some (_, after) => rest.length - after.length
  | none => skip - 1

/--
The options declared in a text, in the order of their first characters.

Switches and options with blocks are looked for independently; each count tells how many characters
still belong to the last declaration of its kind.
-/
def scanFrom (path : List Char) : Nat → Nat → List Char → List OptionHint
  | _, _, [] => []
  | switchSkip, optionSkip, c :: rest =>
    -- Neither kind hides the other, since each has a count of its own.
    let switch := if switchSkip = 0 then switch? (c :: rest) else none
    let option := if optionSkip = 0 then optionHead? (c :: rest) else none
    switchHint path switch ++ optionHint path option ++
      scanFrom path (skipAfter switchSkip rest switch) (skipAfter optionSkip rest option) rest

/-- The options that a module source declares, each named below a path. -/
def scanOptions (source path : List Char) : List OptionHint :=
  scanFrom path 0 0 source

end Nix

end NixKeeper
