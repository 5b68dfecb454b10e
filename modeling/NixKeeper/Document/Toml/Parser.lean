import NixKeeper.Document.Toml.Lexeme
import NixKeeper.Document.Toml.Tree

/-! Documents read from TOML text. -/

namespace NixKeeper.Toml

/-- The deepest nesting of lists and inline tables, and the most keys in a dotted key. -/
def depthLimit : Nat :=
  79

/-- A character of a key that needs no quotes. -/
def isBareKeyChar (c : Char) : Bool :=
  c.isAlphanum || c == '-' || c == '_'

/-- A single key, and what follows. -/
def simpleKey? (text : List Char) : Option (String × List Char) :=
  match text with
  | '"' :: _ | '\'' :: _ => (lineString? text).map fun (name, rest) => (String.ofList name, rest)
  | _ =>
    -- A bare key reaches as far as its characters do.
    let name := text.takeWhile isBareKeyChar
    if name.isEmpty then none else some (String.ofList name, text.drop name.length)

/-- Keys separated by points, with spaces around each, and what follows. -/
def keys? : Nat → List Char → Option (List String × List Char)
  | 0, _ => none
  | fuel + 1, text => do
    -- Blanks are allowed on both sides of the point.
    let (first, rest) ← simpleKey? (skipSpaces text)
    match skipSpaces rest with
    | '.' :: rest =>
      let (more, after) ← keys? fuel rest
      some (first :: more, after)
    | after => some ([first], after)

/-- A dotted key: the keys before the last one, the last one, and what follows. -/
def dottedKey? (text : List Char) : Option (List String × String × List Char) := do
  -- The last of the keys is the one that gets a value.
  let (keys, rest) ← keys? depthLimit text
  let (path, last) ← splitLastKey keys
  some (path, last, rest)

/-- The text behind blanks, line breaks and whole comment lines. -/
def skipFiller : Nat → List Char → Option (List Char)
  | 0, text => some text
  | fuel + 1, text =>
    match skipSpaces text with
    -- A comment has to end with a line break here, since a list goes on behind it.
    | '#' :: rest => (newline? (skipComment ('#' :: rest))).bind (skipFiller fuel)
    | '\n' :: rest => skipFiller fuel rest
    | '\r' :: rest => (newline? ('\r' :: rest)).bind (skipFiller fuel)
    | after => some after

/-- The text behind everything that may surround the items of a list. -/
def filler? (text : List Char) : Option (List Char) :=
  skipFiller (text.length + 1) text

mutual

/-- A value at the head of a text, and what follows; the depth counts the containers around it. -/
def value? : Nat → Nat → List Char → Option (Document × List Char)
  | 0, _, _ => none
  | fuel + 1, depth, text =>
    -- The first character decides what is read.
    match text with
    | '"' :: _ | '\'' :: _ =>
      (string? text).map fun (value, rest) => (.text (String.ofList value), rest)
    | '[' :: rest =>
      if depth < depthLimit then
        (items? fuel (depth + 1) rest).map fun (items, after) => (.list items, after)
      else none
    | '{' :: rest =>
      if depth < depthLimit then
        match skipSpaces rest with
        | '}' :: after => some (.table [], after)
        | _ => (inlineEntries? fuel (depth + 1) [] rest).map fun (entries, after) =>
          (.table (entryDocuments entries), after)
      else none
    | 't' :: 'r' :: 'u' :: 'e' :: rest => some (.bool true, rest)
    | 'f' :: 'a' :: 'l' :: 's' :: 'e' :: rest => some (.bool false, rest)
    | _ => number? text

/-- The items of a list up to its closing bracket; a comma may follow the last one. -/
def items? : Nat → Nat → List Char → Option (List Document × List Char)
  | 0, _, _ => none
  | fuel + 1, depth, text => do
    -- The bracket may stand behind an item or behind a comma.
    match ← filler? text with
    | ']' :: after => some ([], after)
    | text =>
      let (item, rest) ← value? fuel depth text
      match ← filler? rest with
      | ']' :: after => some ([item], after)
      | ',' :: rest =>
        let (more, after) ← items? fuel depth rest
        some (item :: more, after)
      | _ => none

/-- The entries of an inline table up to its closing brace, added to those before them. -/
def inlineEntries? : Nat → Nat → Entries → List Char → Option (Entries × List Char)
  | 0, _, _, _ => none
  | fuel + 1, depth, entries, text => do
    let (path, key, rest) ← dottedKey? text
    match rest with
    | '=' :: rest =>
      let (document, rest) ← value? fuel depth (skipSpaces rest)
      -- The keys of one inline table share what they lead through.
      let entries ← addValue path key document .header entries
      match skipSpaces rest with
      | '}' :: after => some (entries, after)
      | ',' :: rest => inlineEntries? fuel depth entries rest
      | _ => none
    | _ => none

end

/-- What a file holds so far, and the path of the table to which its values belong. -/
structure Progress where
  root : Entries
  current : List String

/-- The text of the next line, after spaces and a comment. -/
def endLine? (text : List Char) : Option (List Char) :=
  -- Only blanks and a comment may follow, and the line or the text ends there.
  match skipComment (skipSpaces text) with
  | [] => some []
  | rest => newline? rest

/-- A line with a key and a value, and what follows. -/
def keyLine? (progress : Progress) (text : List Char) : Option (Progress × List Char) := do
  let (path, key, rest) ← dottedKey? text
  let rest ← expect? '=' rest
  let (document, rest) ← value? (2 * text.length + 2) 0 (skipSpaces rest)
  -- The value goes into the table of the last header, at the end of its own keys.
  let root ← enter false (addValue path key document) progress.current .header progress.root
  let rest ← endLine? rest
  some ({ progress with root }, rest)

/-- A line with a header, after its first bracket, and what follows. -/
def headerLine? (progress : Progress) : List Char → Option (Progress × List Char)
  -- Two brackets add a table to a list, and one bracket opens a table.
  | '[' :: text => do
    let (path, key, rest) ← dottedKey? text
    let rest ← expect? ']' rest
    let rest ← expect? ']' rest
    let root ← openListTable path key progress.root
    let rest ← endLine? rest
    some (⟨root, path ++ [key]⟩, rest)
  | text => do
    let (path, key, rest) ← dottedKey? text
    let rest ← expect? ']' rest
    let root ← openTable path key progress.root
    let rest ← endLine? rest
    some (⟨root, path ++ [key]⟩, rest)

/-- Reads the lines of a file into what it holds so far. -/
def readLines : Nat → Progress → List Char → Option Progress
  | 0, _, _ => none
  | fuel + 1, progress, text =>
    -- A line is empty, a comment, a header or a key with its value.
    match skipSpaces text with
    | [] => some progress
    | '#' :: rest => (endLine? ('#' :: rest)).bind (readLines fuel progress)
    | '\n' :: rest => readLines fuel progress rest
    | '\r' :: rest => (newline? ('\r' :: rest)).bind (readLines fuel progress)
    | '[' :: rest => (headerLine? progress rest).bind fun (next, after) => readLines fuel next after
    | line => (keyLine? progress line).bind fun (next, after) => readLines fuel next after

/-- The text without the byte order mark that may open it. -/
def skipMark : List Char → List Char
  -- Only the very first character can be the mark.
  | '\ufeff' :: rest => rest
  | text => text

/-- The document that a text holds, which is always a table. -/
def parse? (text : String) : Option Document :=
  -- Every line is at least one character long, so the fuel is enough.
  let characters := skipMark text.toList
  (readLines (characters.length + 1) ⟨[], []⟩ characters).map fun progress =>
    .table (entryDocuments progress.root)

end NixKeeper.Toml
