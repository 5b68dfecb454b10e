import NixKeeper.Decimal.Shortest
import NixKeeper.Document.Basic

/-! Documents written as JSON, indented or on one line. -/

namespace NixKeeper.Json

/--
Numbers have a point or an exponent; the exponent begins at `1e16` and below `1e-5`, and a tie goes
to the even digit.
-/
def numberLayout : Binary64.Layout :=
  ⟨.even, fun point => -5 < point && point ≤ 16, true, "null"⟩

/-- A floating-point number; what is not finite has no number in JSON. -/
def float (x : Binary64) : List Char :=
  if x.isFinite then x.render numberLayout else "null".toList

/-- A hexadecimal digit in lower case. -/
def hexDigit (n : Nat) : Char :=
  Nat.digitChar (n % 16)

/-- One character inside quotes. -/
def escape (c : Char) : List Char :=
  if c = '"' then ['\\', '"']
  else if c = '\\' then ['\\', '\\']
  else if c = '\n' then ['\\', 'n']
  else if c = '\r' then ['\\', 'r']
  else if c = '\t' then ['\\', 't']
  else if c.toNat = 0x08 then ['\\', 'b']
  else if c.toNat = 0x0C then ['\\', 'f']
  -- Control characters without a letter of their own are written by their codes.
  else if c.toNat < 0x20 then
    ['\\', 'u', '0', '0', hexDigit (c.toNat / 16), hexDigit c.toNat]
  else [c]

/-- A text in quotes. -/
def quote (text : List Char) : List Char :=
  '"' :: text.flatMap escape ++ ['"']

/-- What separates the parts of a list or a table. -/
inductive Style where
  /-- Everything on one line. -/
  | compact
  /-- One part a line, two spaces deeper than its surroundings. -/
  | indented
deriving DecidableEq

/-- The beginning of a line at a depth. -/
def Style.break (style : Style) (depth : Nat) : List Char :=
  -- The compact style has no line feeds and no indentation.
  match style with
  | .compact => []
  | .indented => '\n' :: List.replicate (2 * depth) ' '

/-- What stands between a key and its value. -/
def Style.colon : Style → List Char
  -- The indented style has a space behind the colon.
  | .compact => [':']
  | .indented => [':', ' ']

mutual

/-- A document at a depth. -/
def write (style : Style) (depth : Nat) : Document → List Char
  | .null => "null".toList
  | .bool value => (if value then "true" else "false").toList
  | .integer value => Decimal.ofInt value
  | .float value => float value
  | .text value => quote value.toList
  | .list [] => ['[', ']']
  | .list (first :: rest) =>
    '[' :: style.break (depth + 1) ++ write style (depth + 1) first ++
      writeItems style (depth + 1) rest ++ style.break depth ++ [']']
  | .table [] => ['{', '}']
  | .table (first :: rest) =>
    '{' :: style.break (depth + 1) ++ writeEntry style (depth + 1) first ++
      writeEntries style (depth + 1) rest ++ style.break depth ++ ['}']
  -- What could not be read is never written, and stands here as null.
  | .unreadable => "null".toList

/-- The items after the first one. -/
def writeItems (style : Style) (depth : Nat) : List Document → List Char
  -- The comma stands in front of every item but the first.
  | [] => []
  | item :: rest =>
    ',' :: style.break depth ++ write style depth item ++ writeItems style depth rest

/-- A key and its value. -/
def writeEntry (style : Style) (depth : Nat) : String × Document → List Char
  | (key, value) => quote key.toList ++ style.colon ++ write style depth value

/-- The entries after the first one. -/
def writeEntries (style : Style) (depth : Nat) : List (String × Document) → List Char
  -- The comma stands in front of every entry but the first.
  | [] => []
  | entry :: rest =>
    ',' :: style.break depth ++ writeEntry style depth entry ++ writeEntries style depth rest

end

/-- The indented text of a document. -/
def pretty (document : Document) : String :=
  String.ofList (write .indented 0 document)

/-- The text of a document on one line. -/
def compact (document : Document) : String :=
  String.ofList (write .compact 0 document)

end NixKeeper.Json
