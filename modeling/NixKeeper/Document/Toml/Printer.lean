import NixKeeper.Decimal.Shortest
import NixKeeper.Document.Basic
import NixKeeper.Text.Search

/-!
Documents written as TOML.

The values of a table come before the tables inside it, each of which has a header of its own; a
value that is null is left out.
-/

namespace NixKeeper.Toml

/-- Numbers have no exponent and keep their point; a tie goes up. -/
def numberLayout : Binary64.Layout :=
  ⟨.up, fun _ => true, true, "nan"⟩

/-- A control character that only an escape can express. -/
def isControl (c : Char) : Bool :=
  (c.toNat < 0x20 && c != '\t' && c != '\n') || c.toNat == 0x7F

/-- The length of the longest run of one character. -/
def longestRun (c : Char) : Nat → Nat → List Char → Nat
  | _, best, [] => best
  | current, best, d :: rest =>
    -- The best run so far is carried along, since it may end before the text does.
    if d = c then longestRun c (current + 1) (max best (current + 1)) rest
    else longestRun c 0 best rest

/-- Four hexadecimal digits in upper case. -/
def hexCode (code : Nat) : List Char :=
  -- Four digits, and the letters among them are capitals.
  [code / 0x1000, code / 0x100, code / 0x10, code].map fun digit =>
    (Nat.digitChar (digit % 16)).toUpper

/-- The escape of a character inside double quotes; a quote is escaped after too many in a row. -/
def escape (multiline : Bool) (quotes : Nat) (c : Char) : List Char :=
  -- Between triple quotes two in a row are harmless, and a third would close the text.
  if c = '"' then (if multiline && quotes < 2 then ['"'] else ['\\', '"'])
  else if c = '\\' then ['\\', '\\']
  else if c = '\t' then ['\\', 't']
  else if c = '\n' then (if multiline then ['\n'] else ['\\', 'n'])
  else if c = '\r' then ['\\', 'r']
  else if c.toNat = 0x08 then ['\\', 'b']
  else if c.toNat = 0x0C then ['\\', 'f']
  else if isControl c then ['\\', 'u'] ++ hexCode c.toNat
  else [c]

/-- The characters between double quotes, given the number of quotes just written. -/
def escapeAll (multiline : Bool) : Nat → List Char → List Char
  | _, [] => []
  | quotes, c :: rest =>
    -- An escaped quote ends the run as any other character does.
    let plainQuote := c = '"' ∧ multiline ∧ quotes < 2
    escape multiline quotes c ++
      escapeAll multiline (if plainQuote then quotes + 1 else 0) rest

/-- A text between double quotes. -/
def basic (text : List Char) : List Char :=
  '"' :: escapeAll false 0 text ++ ['"']

/-- A text between triple double quotes; one with line feeds begins on a line of its own. -/
def multilineBasic (text : List Char) : List Char :=
  -- The line feed behind the quotes is not part of the text.
  "\"\"\"".toList ++ (if text.contains '\n' then ['\n'] else []) ++ escapeAll true 0 text ++
    "\"\"\"".toList

/-- A text between single quotes, in which nothing is escaped. -/
def literal (text : List Char) : List Char :=
  '\'' :: text ++ ['\'']

/-- A text between triple single quotes. -/
def multilineLiteral (text : List Char) : List Char :=
  "'''".toList ++ (if text.contains '\n' then ['\n'] else []) ++ text ++ "'''".toList

/-- A text in the first of the quoted forms that needs no escape, or else escaped. -/
def string (text : List Char) : List Char :=
  -- Each form is taken only if the text can stand in it as it is.
  let escaped := text.any isControl
  let backslash := text.contains '\\'
  let newline := text.contains '\n'
  let doubles := longestRun '"' 0 0 text
  let singles := longestRun '\'' 0 0 text
  if !escaped && !backslash && doubles == 0 && !newline then basic text
  else if !escaped && singles == 0 && !newline then literal text
  else if !escaped && !backslash && doubles ≤ 2 then multilineBasic text
  else if !escaped && singles ≤ 2 then multilineLiteral text
  else if newline then multilineBasic text
  else basic text

/-- A character of a key that needs no quotes. -/
def isBareKey (c : Char) : Bool :=
  c.isAlphanum || c == '-' || c == '_'

/-- A key, quoted where it has to be. -/
def key (name : List Char) : List Char :=
  let escaped := name.any fun c => isControl c || c == '\n'
  -- An empty key needs quotes like any other that is not bare.
  if !name.isEmpty && name.all isBareKey then name
  else if !escaped && !name.contains '\\' && !name.contains '"' then basic name
  else if !escaped && !name.contains '\'' then literal name
  else basic name

/-- The keys on the way to a table. -/
def path (keys : List String) : List Char :=
  Text.join ['.'] (keys.map fun name => key name.toList)

/-- A list whose items are all tables, which is written under headers. -/
def isTableList : Document → Bool
  -- An empty list is written as a value.
  | .list items => !items.isEmpty && items.all fun
    | .table _ => true
    | _ => false
  | _ => false

/-- A value that is written behind its key: neither a table, nor a list of tables, nor null. -/
def isInline : Document → Bool
  -- Tables, and lists of them, get sections of their own.
  | .table _ => false
  | .null => false
  | document => !isTableList document

mutual

/-- A value behind a key; a list of several items has one item a line. -/
def writeValue : Document → List Char
  | .null => []
  | .bool value => (if value then "true" else "false").toList
  | .integer value => Decimal.ofInt value
  | .float value => value.render numberLayout
  | .text value => string value.toList
  | .list [] => ['[', ']']
  | .list [item] => '[' :: writeValue item ++ [']']
  -- The bracket of a longer list stands on a line of its own.
  | .list items => '[' :: writeItems items ++ ['\n', ']']
  | .table [] => ['{', '}']
  | .table (first :: rest) => "\x7b ".toList ++ writeEntry first ++ writeEntries rest ++ " \x7d".toList
  | .unreadable => []

/-- The items of a list, each on its line and before a comma. -/
def writeItems : List Document → List Char
  -- Each item is indented by four spaces.
  | [] => []
  | item :: rest => "\n    ".toList ++ writeValue item ++ [','] ++ writeItems rest

/-- A key and its value. -/
def writeEntry : String × Document → List Char
  | (name, value) => key name.toList ++ " = ".toList ++ writeValue value

/-- The entries after the first one. -/
def writeEntries : List (String × Document) → List Char
  -- The comma stands in front of every entry but the first.
  | [] => []
  | entry :: rest => ", ".toList ++ writeEntry entry ++ writeEntries rest

end

/-- The lines of a table that hold its values. -/
def valueLines (entries : List (String × Document)) : List (List Char) :=
  (entries.filter (isInline ·.2)).map writeEntry

/-- A header and the lines under it, after a blank line unless it opens the file. -/
structure Section where
  /-- The line with the table's path, if the table needs one. -/
  header : Option (List Char)
  lines : List (List Char)

/-- A table needs a header if it holds values or nothing at all. -/
def needsHeader (entries : List (String × Document)) : Bool :=
  -- A table whose only contents are tables is shown by their headers.
  let kept := entries.filter fun entry => match entry.2 with
    | .null => false
    | _ => true
  kept.isEmpty || kept.any (isInline ·.2)

mutual

/-- The sections of the tables inside a table, in order. -/
def innerSections (keys : List String) : List (String × Document) → List Section
  -- An entry with a plain value adds no section.
  | [] => []
  | entry :: rest => entrySections keys entry ++ innerSections keys rest

/-- The sections of one entry: of a table, or of the tables in a list. -/
def entrySections (keys : List String) : String × Document → List Section
  | (name, value) => tableSections (keys ++ [name]) value

/-- The sections of a table or of a list of tables that stands at a path. -/
def tableSections (keys : List String) : Document → List Section
  | .table entries =>
    -- A table that only holds other tables needs no header of its own.
    let header := if needsHeader entries then some ('[' :: path keys ++ [']']) else none
    ⟨header, valueLines entries⟩ :: innerSections keys entries
  | .list items => itemSections keys items
  | _ => []

/-- The sections of the tables in a list, each under the same header. -/
def itemSections (keys : List String) : List Document → List Section
  -- Each table of the list has a section of its own.
  | [] => []
  | item :: rest => itemSection keys item ++ itemSections keys rest

/-- The sections of one table in a list. -/
def itemSection (keys : List String) : Document → List Section
  -- Two brackets in the header say that the table is one of a list.
  | .table entries =>
    ⟨some ("[[".toList ++ path keys ++ "]]".toList), valueLines entries⟩ ::
      innerSections keys entries
  | _ => []

end

/-- The text of a section; the flag tells whether something stands above it. -/
def Section.render (below : Bool) (part : Section) : List Char :=
  -- A section without a header continues what is above it.
  let gap := if below && part.header.isSome then ['\n'] else []
  gap ++ (part.header.toList ++ part.lines).flatMap (· ++ ['\n'])

/-- The text of all sections, with a blank line above every header but the first. -/
def renderSections : Bool → List Section → List Char
  | _, [] => []
  | below, part :: rest =>
    -- An empty line stands between what was written and what comes next.
    let written := part.header.isSome || !part.lines.isEmpty
    part.render below ++ renderSections (below || written) rest

/-- The text of a document, which has to be a table. -/
def pretty? : Document → Option String
  -- Anything else would have no key to stand behind.
  | .table entries =>
    some (String.ofList (renderSections false (⟨none, valueLines entries⟩ :: innerSections [] entries)))
  | _ => none

end NixKeeper.Toml
