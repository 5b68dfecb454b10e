import NixKeeper.Document.Json.Number

/-! Documents read from JSON text. -/

namespace NixKeeper.Json

/-- The blanks that JSON allows between values. -/
def isBlank (c : Char) : Bool :=
  c == ' ' || c == '\n' || c == '\t' || c == '\r'

/-- The text from its first character that is not blank. -/
def skipBlanks (text : List Char) : List Char :=
  text.dropWhile isBlank

/-- A part of a quoted text: a character as it stands, or the code unit of a numeric escape. -/
inductive Piece where
  | plain (c : Char)
  | unit (code : Nat)

/-- The code of four hexadecimal digits. -/
def hexCode? (a b c d : Char) : Option Nat := do
  -- The first digit is the highest one.
  let a ← hexValue? a
  let b ← hexValue? b
  let c ← hexValue? c
  let d ← hexValue? d
  some (((a * 16 + b) * 16 + c) * 16 + d)

/-- The character that a one-letter escape stands for. -/
def shortEscape? (c : Char) : Option Char :=
  -- The slash may be escaped, and is written without it.
  match c with
  | '"' => some '"'
  | '\\' => some '\\'
  | '/' => some '/'
  | 'b' => some '\x08'
  | 'f' => some '\x0c'
  | 'n' => some '\n'
  | 'r' => some '\r'
  | 't' => some '\t'
  | _ => none

/-- The pieces of a quoted text up to its closing quote, and what follows. -/
def pieces : List Char → Option (List Piece × List Char)
  | [] => none
  | '"' :: rest => some ([], rest)
  | '\\' :: 'u' :: a :: b :: c :: d :: rest => do
    -- Whether the code is half of a pair is seen when all pieces are there.
    let code ← hexCode? a b c d
    let (more, after) ← pieces rest
    some (.unit code :: more, after)
  | '\\' :: c :: rest => do
    let meant ← shortEscape? c
    let (more, after) ← pieces rest
    some (.plain meant :: more, after)
  | c :: rest =>
    -- Control characters have to be escaped.
    if c = '\\' ∨ c.toNat < 0x20 then none
    else do
      let (more, after) ← pieces rest
      some (.plain c :: more, after)

/-- The characters of the pieces; surrogate code units have to stand in pairs. -/
def characters? : List Piece → Option (List Char)
  | [] => some []
  | .plain c :: rest => (characters? rest).map (c :: ·)
  | .unit high :: .unit low :: rest =>
    -- A first half has to be followed by a second one, and no second half stands alone.
    if 0xD800 ≤ high ∧ high < 0xDC00 then
      if 0xDC00 ≤ low ∧ low < 0xE000 then
        (characters? rest).map (Char.ofNat ((high - 0xD800) * 0x400 + (low - 0xDC00) + 0x10000) :: ·)
      else none
    else if 0xDC00 ≤ high ∧ high < 0xE000 then none
    else (characters? (.unit low :: rest)).map (Char.ofNat high :: ·)
  | .unit code :: rest =>
    if 0xD800 ≤ code ∧ code < 0xE000 then none
    else (characters? rest).map (Char.ofNat code :: ·)

/-- A text after its opening quote, if its code units pair up, and what follows. -/
def quoted? (text : List Char) : Option (Option String × List Char) :=
  (pieces text).map fun (parts, after) => ((characters? parts).map String.ofList, after)

/-- The document of a quoted text. -/
def textDocument : Option String → Document
  -- A text that is not well formed is marked, and refused where it is used.
  | some value => .text value
  | none => .unreadable

/-- The document of a table, unless one of its keys has no meaning. -/
def tableDocument (entries : List (Option String × Document)) : Document :=
  -- One key that is not well formed makes the table unreadable.
  match entries.mapM fun entry => entry.1.map (·, entry.2) with
  | some named => .table named
  | none => .unreadable

mutual

/-- A document at the head of a text, and what follows; the fuel bounds the nesting and the length. -/
def value? : Nat → List Char → Option (Document × List Char)
  | 0, _ => none
  | fuel + 1, text =>
    match skipBlanks text with
    | 'n' :: 'u' :: 'l' :: 'l' :: rest => some (.null, rest)
    | 't' :: 'r' :: 'u' :: 'e' :: rest => some (.bool true, rest)
    | 'f' :: 'a' :: 'l' :: 's' :: 'e' :: rest => some (.bool false, rest)
    | '"' :: rest => (quoted? rest).map fun (value, after) => (textDocument value, after)
    | '[' :: rest =>
      -- An empty list is recognised here, so that no comma can stand before a closing bracket.
      match skipBlanks rest with
      | ']' :: after => some (.list [], after)
      | _ => (items? fuel rest).map fun (items, after) => (.list items, after)
    | '{' :: rest =>
      match skipBlanks rest with
      | '}' :: after => some (.table [], after)
      | _ => (entries? fuel rest).map fun (entries, after) => (tableDocument entries, after)
    | other => number? other

/-- The items of a list up to its closing bracket, at least one. -/
def items? : Nat → List Char → Option (List Document × List Char)
  | 0, _ => none
  -- The fuel falls with the item, and with the rest behind it.
  | fuel + 1, text => do
    let (item, rest) ← value? fuel text
    match skipBlanks rest with
    | ']' :: after => some ([item], after)
    | ',' :: after =>
      let (more, after) ← items? fuel after
      some (item :: more, after)
    | _ => none

/-- The entries of a table up to its closing brace, at least one. -/
def entries? : Nat → List Char → Option (List (Option String × Document) × List Char)
  | 0, _ => none
  | fuel + 1, text =>
    match skipBlanks text with
    | '"' :: rest => do
      -- A key without a meaning spoils the table only if the table is read.
      let (key, rest) ← quoted? rest
      match skipBlanks rest with
      | ':' :: rest =>
        let (value, rest) ← value? fuel rest
        match skipBlanks rest with
        | '}' :: after => some ([(key, value)], after)
        | ',' :: after =>
          let (more, after) ← entries? fuel after
          some ((key, value) :: more, after)
        | _ => none
      | _ => none
    | _ => none

end

/-- The document that a text holds, with nothing but blanks around it. -/
def parse? (text : String) : Option Document :=
  let characters := text.toList
  -- Every step down and every part uses up a character, so this fuel never runs out.
  match value? (2 * characters.length + 2) characters with
  | some (document, rest) => if (skipBlanks rest).isEmpty then some document else none
  | none => none

end NixKeeper.Json
