import NixKeeper.Decimal.Shortest
import NixKeeper.Model.Basic
import NixKeeper.Text.Blank
import NixKeeper.Text.Search

/-!
Literals of the Nix language, written and read.

Of all characters only the double quote is escaped. A backslash stands for itself unless a quote
follows it, and a line feed may stand in a text as it is.
-/

namespace NixKeeper.Nix

/-- A text as it stands between quotes. -/
def escape (text : List Char) : List Char :=
  -- A backslash stays single, which is why reading looks at the quote behind it.
  text.flatMap fun c => if c = '"' then ['\\', '"'] else [c]

/-- The text that stands between quotes in an escaped form. -/
def unescape : List Char → List Char
  -- A backslash in front of anything but a quote stays.
  | [] => []
  | '\\' :: '"' :: rest => '"' :: unescape rest
  | c :: rest => c :: unescape rest

/-- A text in double quotes. -/
def quote (text : List Char) : List Char :=
  '"' :: escape text ++ ['"']

/-- A list of quoted texts in brackets. -/
def formatList (items : List String) : List Char :=
  -- An empty list has one space between its brackets, and not two.
  if items.isEmpty then "[ ]".toList
  else "[ ".toList ++ Text.join [' '] (items.map fun item => quote item.toList) ++ " ]".toList

/-- The literal of a value. -/
def format : Literal → List Char
  -- A number that is not whole is written with its shortest digits.
  | .bool value => (if value then "true" else "false").toList
  | .int value => Decimal.ofInt value.toInt
  | .float value => value.render Binary64.plain
  | .list items => formatList items
  | .text value => quote value.toList

/-- The text up to a quote that no backslash protects, and what follows that quote. -/
def quotedTail : List Char → Option (List Char × List Char)
  | [] => none
  | '"' :: rest => some ([], rest)
  -- A backslash at the very end protects nothing and closes nothing.
  | ['\\'] => none
  | '\\' :: c :: rest =>
    -- A backslash protects any character but a line feed, which may not follow it.
    if c = '\n' then none
    else (quotedTail rest).map fun (inside, after) => ('\\' :: c :: inside, after)
  | c :: rest => (quotedTail rest).map fun (inside, after) => (c :: inside, after)

/-- A text in quotes at the head of another: what stands between the quotes, and what follows. -/
def quoted? : List Char → Option (List Char × List Char)
  -- Only a quote begins a text.
  | '"' :: rest => quotedTail rest
  | _ => none

/--
The texts of a list between its brackets, among which only blanks may stand.

The first argument counts the characters that still belong to the last text.
-/
def itemsFrom? : Nat → List Char → Option (List String)
  | _, [] => some []
  | skip + 1, _ :: rest => itemsFrom? skip rest
  | 0, c :: rest =>
    match quoted? (c :: rest) with
    | some (inside, after) =>
      (itemsFrom? (rest.length - after.length) rest).map (String.ofList (unescape inside) :: ·)
    -- Whatever is neither quoted nor blank spoils the list.
    | none => if Text.isBlank c then itemsFrom? 0 rest else none

/-- Reads a list of quoted texts in brackets. -/
def parseList? (raw : List Char) : Option (List String) :=
  (Text.between? ['['] [']'] (Text.trim raw)).bind (itemsFrom? 0)

/-- A quote stands in the text without a backslash before it. -/
def hasBareQuote : Bool → List Char → Bool
  | _, [] => false
  -- Only the character directly in front can protect a quote.
  | escaped, c :: rest => (c == '"' && !escaped) || hasBareQuote (c == '\\') rest

/-- Reads a single text in quotes. -/
def unquote? (raw : List Char) : Option String :=
  (Text.between? ['"'] ['"'] (Text.trim raw)).bind fun inside =>
    -- A bare quote inside would mean two texts, or a text and a rest.
    if hasBareQuote false inside then none else some (String.ofList (unescape inside))

/-- Reads decimal digits on both sides of a point, after an optional minus sign. -/
def readDecimal? (text : List Char) : Option Binary64 := do
  -- Only a minus sign may stand before the digits.
  let (negative, digits) := match text with
    | '-' :: digits => (true, digits)
    | digits => (false, digits)
  let (whole, fraction) ← Text.splitFirst ['.'] digits
  if !whole.isEmpty && !fraction.isEmpty && (whole ++ fraction).all Char.isDigit then
    some (Binary64.ofDecimal negative (Nat.ofDigitChars 10 (whole ++ fraction) 0)
      -- The digits are read as one number, which the point scales down.
      (-(fraction.length : Int)))
  else none

/-- Reads a truth value, a number, a list of quoted texts or a quoted text. -/
def parse? (raw : List Char) : Option Literal :=
  let text := Text.trim raw
  if text = "true".toList then some (.bool true)
  else if text = "false".toList then some (.bool false)
  else
    -- A whole number that fits is preferred; one that does not fit is no number at all.
    match Decimal.readInt64? text, readDecimal? text with
    | some value, _ => some (.int value)
    | none, some value => some (.float value)
    | none, none =>
      if text.head? = some '[' then (parseList? text).map .list else (unquote? text).map .text

end NixKeeper.Nix
