import NixKeeper.Decimal.Integer
import NixKeeper.Document.Basic
import NixKeeper.Text.Blank

/-! The single values of TOML: quoted texts, numbers, dates and times, each read from the head of a text. -/

namespace NixKeeper.Toml

/-- A character that may stand in a comment or between quotes. -/
def isVisible (c : Char) : Bool :=
  c == '\t' || (0x20 ≤ c.toNat && c.toNat != 0x7F)

/-- A line break at the head of a text. -/
def newline? : List Char → Option (List Char)
  -- A carriage return ends a line only together with a line feed.
  | '\n' :: rest => some rest
  | '\r' :: '\n' :: rest => some rest
  | _ => none

/-- The text from its first character that is neither a space nor a tab. -/
def skipSpaces (text : List Char) : List Char :=
  text.dropWhile Text.isSpace

/-- The text behind a comment, if one stands at its head. -/
def skipComment : List Char → List Char
  -- The line feed behind the comment is left to the caller.
  | '#' :: rest => rest.dropWhile isVisible
  | text => text

/-- The character of a code written in hexadecimal digits. -/
def codePoint? (digits : List Char) : Option Char := do
  let values ← digits.mapM hexValue?
  let code := values.foldl (fun code digit => code * 16 + digit) 0
  -- Codes of surrogates stand for no character.
  if code.isValidChar then some (Char.ofNat code) else none

/-- The character that a one-letter escape stands for. -/
def shortEscape? (c : Char) : Option Char :=
  -- The slash cannot be escaped here.
  match c with
  | 'b' => some '\x08'
  | 't' => some '\t'
  | 'n' => some '\n'
  | 'f' => some '\x0c'
  | 'r' => some '\r'
  | '"' => some '"'
  | '\\' => some '\\'
  | _ => none

/-- The character of an escape after its backslash, and what follows. -/
def escape? : List Char → Option (Char × List Char)
  | 'u' :: rest =>
    -- The number of digits is fixed by the letter.
    if 4 ≤ rest.length then (codePoint? (rest.take 4)).map (·, rest.drop 4) else none
  | 'U' :: rest =>
    if 8 ≤ rest.length then (codePoint? (rest.take 8)).map (·, rest.drop 8) else none
  | c :: rest => (shortEscape? c).map (·, rest)
  | [] => none

/-- A text after its opening double quote, and what follows the closing one. -/
def basicTail : Nat → List Char → Option (List Char × List Char)
  | 0, _ => none
  | _, [] => none
  -- A quote ends the text, a backslash begins an escape, and no line feed is allowed.
  | fuel + 1, c :: rest =>
    if c = '"' then some ([], rest)
    else if c = '\\' then do
      let (meant, rest) ← escape? rest
      let (more, after) ← basicTail fuel rest
      some (meant :: more, after)
    else if isVisible c then do
      let (more, after) ← basicTail fuel rest
      some (c :: more, after)
    else none

/-- A text after its opening single quote, and what follows the closing one. -/
def literalTail (text : List Char) : Option (List Char × List Char) :=
  -- Nothing is escaped, so the text cannot hold the quote that closes it.
  let inside := text.takeWhile fun c => c != '\'' && isVisible c
  match text.drop inside.length with
  | '\'' :: after => some (inside, after)
  | _ => none

/-- The text behind blanks and line breaks. -/
def skipBlankLines : List Char → List Char
  -- This is what may stand behind a backslash at the end of a line.
  | ' ' :: rest => skipBlankLines rest
  | '\t' :: rest => skipBlankLines rest
  | '\n' :: rest => skipBlankLines rest
  | '\r' :: '\n' :: rest => skipBlankLines rest
  | text => text

/--
The end of a text in triple quotes: up to two quotes that still belong to it, and what follows.

Five quotes in a row are two of the text and three that close it.
-/
def closing? (quote : Char) (text : List Char) : Option (List Char × List Char) :=
  -- A run of quotes is taken as a whole, and its last three close the text.
  let run := (text.takeWhile (· == quote)).length
  if 3 ≤ run then
    let kept := min (run - 3) 2
    some (List.replicate kept quote, text.drop (kept + 3))
  else none

/-- A text after its opening triple double quotes, and what follows the closing ones. -/
def multilineBasicTail : Nat → List Char → Option (List Char × List Char)
  | 0, _ => none
  | _, [] => none
  | fuel + 1, c :: rest =>
    match closing? '"' (c :: rest) with
    | some found => some found
    | none =>
      if c = '\\' then
        -- A backslash before a line break drops the break and all blanks behind it.
        match newline? (skipSpaces rest) with
        | some after => multilineBasicTail fuel (skipBlankLines after)
        | none => do
          let (meant, rest) ← escape? rest
          let (more, after) ← multilineBasicTail fuel rest
          some (meant :: more, after)
      else
        match newline? (c :: rest) with
        | some rest => do
          let (more, after) ← multilineBasicTail fuel rest
          -- Either kind of line break is read as a line feed.
          some ('\n' :: more, after)
        | none =>
          if isVisible c then do
            let (more, after) ← multilineBasicTail fuel rest
            some (c :: more, after)
          else none

/-- A text after its opening triple single quotes, and what follows the closing ones. -/
def multilineLiteralTail : Nat → List Char → Option (List Char × List Char)
  | 0, _ => none
  | _, [] => none
  -- Nothing is escaped here, so only three quotes end the text.
  | fuel + 1, c :: rest =>
    match closing? '\'' (c :: rest) with
    | some found => some found
    | none =>
      match newline? (c :: rest) with
      | some rest => do
        let (more, after) ← multilineLiteralTail fuel rest
        some ('\n' :: more, after)
      | none =>
        if isVisible c then do
          let (more, after) ← multilineLiteralTail fuel rest
          some (c :: more, after)
        else none

/-- The text behind the line break that may follow opening triple quotes. -/
def skipFirstBreak (text : List Char) : List Char :=
  (newline? text).getD text

/-- A quoted text on one line, as keys have it. -/
def lineString? : List Char → Option (List Char × List Char)
  -- The two kinds of quotes differ in what they escape.
  | '"' :: rest => basicTail (rest.length + 1) rest
  | '\'' :: rest => literalTail rest
  | _ => none

/-- A quoted text in any of its four forms. -/
def string? : List Char → Option (List Char × List Char)
  -- Three quotes are looked for before one.
  | '"' :: '"' :: '"' :: rest => multilineBasicTail (rest.length + 1) (skipFirstBreak rest)
  | '\'' :: '\'' :: '\'' :: rest => multilineLiteralTail (rest.length + 1) (skipFirstBreak rest)
  | text => lineString? text

/--
The digits after a first one, in which single underscores may stand between two digits, and what
follows. An underscore without a digit behind it is refused.
-/
def moreDigits? (isDigit : Char → Bool) : List Char → Option (List Char × List Char)
  | [] => some ([], [])
  -- An underscore is no digit, but has to have one on either side.
  | '_' :: d :: rest =>
    if isDigit d then (moreDigits? isDigit rest).map fun (ds, left) => (d :: ds, left) else none
  | d :: rest =>
    if d = '_' then none
    else if isDigit d then (moreDigits? isDigit rest).map fun (ds, left) => (d :: ds, left)
    else some ([], d :: rest)

/-- Digits of a class, at least one, with single underscores between them, and what follows. -/
def digitRun? (isDigit : Char → Bool) : List Char → Option (List Char × List Char)
  -- The first character has to be a digit, and only then underscores may follow.
  | [] => none
  | d :: rest =>
    if isDigit d then (moreDigits? isDigit rest).map fun (ds, left) => (d :: ds, left) else none

/-- An optional sign at the head of a text. -/
def sign : List Char → Bool × List Char
  -- Without a sign the number is positive.
  | '+' :: rest => (false, rest)
  | '-' :: rest => (true, rest)
  | text => (false, text)

/-- Decimal digits without a leading zero, or a single zero, and what follows. -/
def wholeDigits? : List Char → Option (List Char × List Char)
  -- Behind a leading zero no digit is taken.
  | '0' :: rest => some (['0'], rest)
  | text => digitRun? Char.isDigit text

/-- The value of digits in a base. -/
def valueIn (base : Nat) (digits : List Char) : Nat :=
  digits.foldl (fun value digit => value * base + (hexValue? digit).getD 0) 0

/-- A whole number that fits sixty-four bits with a sign. -/
def integerDocument? (n : Int) : Option Document :=
  if Int64.minValue.toInt ≤ n ∧ n ≤ Int64.maxValue.toInt then some (.integer n) else none

/-- A whole number in a base other than ten, after its mark. -/
def basedInteger? (base : Nat) (isDigit : Char → Bool) (text : List Char) :
    Option (Document × List Char) := do
  -- The number must fit into 64 bits.
  let (digits, rest) ← digitRun? isDigit text
  let document ← integerDocument? (valueIn base digits)
  some (document, rest)

/-- A whole number, and what follows. -/
def integer? : List Char → Option (Document × List Char)
  | '0' :: 'x' :: rest => basedInteger? 16 (fun c => (hexValue? c).isSome) rest
  | '0' :: 'o' :: rest => basedInteger? 8 (fun c => '0' ≤ c && c ≤ '7') rest
  | '0' :: 'b' :: rest => basedInteger? 2 (fun c => c == '0' || c == '1') rest
  | text => do
    let (negative, rest) := sign text
    -- Behind a leading zero the number ends, and further digits are found to be out of place.
    let (digits, rest) ← wholeDigits? rest
    let n := valueIn 10 digits
    let document ← integerDocument? (if negative then -(n : Int) else n)
    some (document, rest)

/-- The digits behind a point, if there is a point. -/
def fraction? : List Char → Option (List Char × List Char)
  -- A point without digits behind it is refused.
  | '.' :: rest => digitRun? Char.isDigit rest
  | text => some ([], text)

/-- The power of ten behind its letter, if there is one. -/
def exponent? : List Char → Option (Int × List Char)
  -- The digits of the power may begin with zeros.
  | 'e' :: rest | 'E' :: rest => do
    let (negative, rest) := sign rest
    let (digits, rest) ← digitRun? Char.isDigit rest
    let n := valueIn 10 digits
    some (if negative then -(n : Int) else n, rest)
  | text => some (0, text)

/-- A number with a point or an exponent; one beyond the largest finite number is refused. -/
def decimal? (text : List Char) : Option (Document × List Char) := do
  let (negative, rest) := sign text
  let (whole, afterWhole) ← wholeDigits? rest
  match afterWhole with
  -- Without a point and without an exponent the number is whole.
  | '.' :: _ | 'e' :: _ | 'E' :: _ =>
    let (fraction, rest) ← fraction? afterWhole
    let (exponent, rest) ← exponent? rest
    let x := Binary64.ofDecimal negative (valueIn 10 (whole ++ fraction)) (exponent - fraction.length)
    -- Only the positive side is watched.
    if x.isInfinite && !negative then none else some (.float x, rest)
  | _ => none

/-- Infinity or the lack of a value, by name. -/
def special? (text : List Char) : Option (Document × List Char) :=
  -- The sign is kept, also in front of what is no number.
  let (negative, rest) := sign text
  match rest with
  | 'i' :: 'n' :: 'f' :: after => some (.float (.infinity negative), after)
  | 'n' :: 'a' :: 'n' :: after => some (.float (.nan negative), after)
  | _ => none

/-- A given number of decimal digits whose value lies between two bounds, and what follows. -/
def fixedDigits? (count low high : Nat) (text : List Char) : Option (Nat × List Char) :=
  -- All of the digits have to be there, and in range.
  let digits := text.take count
  if digits.length == count && digits.all Char.isDigit then
    let value := Nat.ofDigitChars 10 digits 0
    if low ≤ value && value ≤ high then some (value, text.drop count) else none
  else none

/-- The text behind an expected character. -/
def expect? (expected : Char) : List Char → Option (List Char)
  -- Nothing but the character that is expected is passed.
  | c :: rest => if c = expected then some rest else none
  | [] => none

/-- A number in decimal digits, filled up with zeros on the left. -/
def padded (width n : Nat) : List Char :=
  -- Nothing is added to a number that is wide enough.
  let digits := Decimal.ofNat n
  List.replicate (width - digits.length) '0' ++ digits

/-- The number of days of a month. -/
def daysIn (year month : Nat) : Nat :=
  if month = 2 then
    -- Every fourth year is a leap year, except for three out of four full centuries.
    if year % 4 = 0 ∧ (year % 100 ≠ 0 ∨ year % 400 = 0) then 29 else 28
  else if month = 4 ∨ month = 6 ∨ month = 9 ∨ month = 11 then 30
  else 31

/-- A calendar date in its normal form, and what follows. -/
def date? (text : List Char) : Option (List Char × List Char) := do
  -- The number of days depends on the month and on the year.
  let (year, rest) ← fixedDigits? 4 0 9999 text
  let rest ← expect? '-' rest
  let (month, rest) ← fixedDigits? 2 1 12 rest
  let rest ← expect? '-' rest
  let (day, rest) ← fixedDigits? 2 1 (daysIn year month) rest
  some (padded 4 year ++ '-' :: padded 2 month ++ '-' :: padded 2 day, rest)

/-- The digits of a fraction of a second, at most nine and without zeros at the end. -/
def secondFraction (digits : List Char) : List Char :=
  -- Parts of a second beyond nine digits are dropped.
  let kept := Text.dropEndWhile (· == '0') (digits.take 9)
  if kept.isEmpty then [] else '.' :: kept

/-- A time of day in its normal form, and what follows. -/
def time? (text : List Char) : Option (List Char × List Char) := do
  let (hour, rest) ← fixedDigits? 2 0 23 text
  let rest ← expect? ':' rest
  let (minute, rest) ← fixedDigits? 2 0 59 rest
  let rest ← expect? ':' rest
  -- A minute may have a leap second.
  let (second, rest) ← fixedDigits? 2 0 60 rest
  let clock := padded 2 hour ++ ':' :: padded 2 minute ++ ':' :: padded 2 second
  match rest with
  | '.' :: after =>
    let digits := after.takeWhile Char.isDigit
    if digits.isEmpty then none
    else some (clock ++ secondFraction digits, after.drop digits.length)
  | _ => some (clock, rest)

/-- The distance from universal time in its normal form, if one is given. -/
def offset? : List Char → Option (List Char × List Char)
  | 'Z' :: rest | 'z' :: rest => some (['Z'], rest)
  | mark :: rest =>
    if mark = '+' ∨ mark = '-' then do
      let (hours, rest) ← fixedDigits? 2 0 23 rest
      let rest ← expect? ':' rest
      let (minutes, rest) ← fixedDigits? 2 0 59 rest
      -- No distance at all has no direction.
      let shown := if hours = 0 ∧ minutes = 0 then '+' else mark
      some (shown :: padded 2 hours ++ ':' :: padded 2 minutes, rest)
    else some ([], mark :: rest)
  | [] => some ([], [])

/-- The time of day behind a date, if one is given. -/
def timeAfterDate? (text : List Char) : Option (List Char × List Char) :=
  match text with
  | c :: rest =>
    -- A space only belongs to the moment if digits follow it.
    if c = 'T' ∨ c = 't' ∨ (c = ' ' ∧ (fixedDigits? 2 0 99 rest).isSome) then do
      let (clock, rest) ← time? rest
      let (distance, rest) ← offset? rest
      some ('T' :: clock ++ distance, rest)
    else some ([], text)
  | [] => some ([], [])

/-- A moment stands for a table with one entry, which holds its normal form. -/
def momentDocument (text : List Char) : Document :=
  .table [("$__toml_private_datetime", .text (String.ofList text))]

/-- A date, a time of day or both, and what follows. -/
def moment? (text : List Char) : Option (Document × List Char) :=
  -- A date may stand alone, and so may a time.
  match date? text with
  | some (day, rest) =>
    (timeAfterDate? rest).map fun (clock, after) => (momentDocument (day ++ clock), after)
  | none => (time? text).map fun (clock, after) => (momentDocument clock, after)

/-- A value that begins with a sign or a digit, and what follows. -/
def number? (text : List Char) : Option (Document × List Char) :=
  -- One form may begin like another, so the longer ones are tried first.
  (moment? text).orElse fun _ => (decimal? text).orElse fun _ =>
    (special? text).orElse fun _ => integer? text

end NixKeeper.Toml
