import NixKeeper.Managed.UserBlock
import NixKeeper.Text.Pattern
import NixKeeper.Text.Utf8

/-!
Blocks, and the removal of a user's blocks, by byte offsets.

A text is read byte by byte and cut at offsets. A step that is not possible is a fault: a slice
whose ends are out of order or inside a character, a byte that is not there, a block closed once too often.
-/

namespace NixKeeper.Managed.Bytes

/-- Why a step over the bytes of a text is not possible. -/
inductive Fault where
  /-- No byte stands at an offset. -/
  | noByte
  /-- A slice ends before it begins, or one of its ends is no boundary between characters. -/
  | badSlice
  /-- More blocks are closed than are open. -/
  | noOpenBlock
  /-- A search begins behind the end of the text. -/
  | behindEnd
deriving DecidableEq

/-- A character begins at an offset, or the text ends there. -/
def isBoundary (bytes : List UInt8) (offset : Nat) : Bool :=
  -- The end of the text is a boundary, and nothing behind it is.
  match bytes[offset]? with
  | some byte => decide byte.IsUTF8FirstByte
  | none => offset == bytes.length

/-- The bytes from one offset to another. -/
def slice (bytes : List UInt8) (start stop : Nat) : Except Fault (List UInt8) :=
  -- The order of the two offsets is checked, and that both are boundaries.
  if start ≤ stop ∧ isBoundary bytes start ∧ isBoundary bytes stop then
    return (bytes.take stop).drop start
  else throw .badSlice

/-- Whether a backslash stands right before an offset. -/
def isEscaped (bytes : List UInt8) : Nat → Except Fault Bool
  -- Nothing stands before the first byte.
  | 0 => return false
  | before + 1 =>
    match bytes[before]? with
    | some byte => return byte == '\\'.toUInt8
    | none => throw .noByte

/-- The number of blocks that stay open when one is closed. -/
def closeBlock : Nat → Except Fault Nat
  -- The scan begins inside one block and ends at its brace, so the fault is never reached.
  | 0 => throw .noOpenBlock
  | depth + 1 => return depth

/--
The bytes from an offset up to the brace that closes the last open block.

What is left to read comes with its offsets. The depth counts the blocks that are open, and `quoted`
tells whether the bytes stand between quotes.
-/
def blockFrom (bytes : List UInt8) (start : Nat) :
    Nat → Bool → List (UInt8 × Nat) → Except Fault (Option (List UInt8))
  | _, _, [] => return none
  | depth, quoted, (byte, offset) :: rest => do
    -- What stands before a byte matters only for a quote.
    let toggles ← if byte = '"'.toUInt8 then (return !(← isEscaped bytes offset)) else pure false
    if toggles then blockFrom bytes start depth (!quoted) rest
    else if byte = '{'.toUInt8 ∧ !quoted then blockFrom bytes start (depth + 1) quoted rest
    else if byte = '}'.toUInt8 ∧ !quoted then
      let left ← closeBlock depth
      if left = 0 then return some (← slice bytes start offset)
      else blockFrom bytes start left quoted rest
    else blockFrom bytes start depth quoted rest

/-- The bytes of a block from an offset just behind its opening brace. -/
def extract (bytes : List UInt8) (start : Nat) : Except Fault (Option (List UInt8)) :=
  -- An offset within a character gives no block.
  if isBoundary bytes start then blockFrom bytes start 1 false (bytes.zipIdx.drop start)
  else return none

/-- The offset behind bytes of a class. -/
def skipBytes (accepts : UInt8 → Bool) (bytes : List UInt8) (offset : Nat) : Nat :=
  offset + ((bytes.drop offset).takeWhile accepts).length

/-- The offset behind an optional byte. -/
def skipByte (optional : UInt8) (bytes : List UInt8) (offset : Nat) : Nat :=
  if bytes[offset]? = some optional then offset + 1 else offset

/-- A byte of a space or a tab. -/
def isSpace (byte : UInt8) : Bool :=
  byte == ' '.toUInt8 || byte == '\t'.toUInt8

/-- The offset behind the semicolon and the line break that may follow a block. -/
def lineEnd (bytes : List UInt8) (offset : Nat) : Nat :=
  -- The semicolon and the line feed may both be missing.
  let semicolon := skipByte ';'.toUInt8 bytes (skipBytes isSpace bytes offset)
  skipByte '\n'.toUInt8 bytes
    (skipBytes (fun byte => isSpace byte || byte == '\r'.toUInt8) bytes semicolon)

/-- Passing over an optional byte never leads back. -/
theorem le_skipByte (optional : UInt8) (bytes : List UInt8) (offset : Nat) :
    offset ≤ skipByte optional bytes offset := by
  -- The offset stays, or moves on by one.
  rw [skipByte]
  split <;> omega

/-- The end of a line never lies before the offset from which it is looked for. -/
theorem le_lineEnd (bytes : List UInt8) (offset : Nat) : offset ≤ lineEnd bytes offset :=
  -- Each of the four steps goes on, or stays where it is.
  calc offset
    _ ≤ skipBytes isSpace bytes offset := Nat.le_add_right _ _
    _ ≤ skipByte ';'.toUInt8 bytes (skipBytes isSpace bytes offset) := le_skipByte _ _ _
    _ ≤ _ := Nat.le_add_right _ _
    _ ≤ lineEnd bytes offset := le_skipByte _ _ _

/-- The pattern for the head of a definition of a user. -/
def headPattern (username : String) : List Text.Part :=
  -- The name is taken letter by letter, so none of its characters means anything else.
  .many Text.isSpace :: (userPath ++ username.toList).map (fun letter => .one (· == letter)) ++
    [.many Text.isBlank, .one (· == '='), .many Text.isBlank, .one (· == '{')]

/-- The place of a match that was looked for from a cursor on. -/
structure Found (cursor : Nat) where
  start : Nat
  stop : Nat
  reached : cursor ≤ start
  ordered : start ≤ stop

/--
The first match of a pattern that begins a line at a cursor or behind it.

The text to be searched begins at an offset, and the flag tells whether it begins a line.
-/
def findFrom (parts : List Text.Part) (cursor : Nat) : Nat → Bool → List Char → Option (Found cursor)
  -- Only a pattern that matches nothing at all would match at the end of a text.
  | _, _, [] => none
  | offset, lineStart, c :: rest =>
    let later := findFrom parts cursor (offset + c.utf8Size) (c == '\n') rest
    if reached : cursor ≤ offset then
      match if lineStart then Text.matchParts? parts (c :: rest) else none with
      | some after =>
        let length := (Text.encode (c :: rest)).length - (Text.encode after).length
        some ⟨offset, offset + length, reached, Nat.le_add_right offset length⟩
      | none => later
    else later

/--
Removes the blocks of a user from a cursor on, behind a result that is complete up to there.

Each pass moves the cursor behind a closing brace.
-/
def removeFrom (username : String) (text : List Char) (cursor : Nat) (result : List UInt8) :
    Except Fault (List UInt8) :=
  if _ : cursor ≤ (Text.encode text).length then do
    let bytes := Text.encode text
    let some found := findFrom (headPattern username) cursor 0 true text
      | return result ++ (← slice bytes cursor bytes.length)
    let some body ← extract bytes found.stop
      | return result ++ (← slice bytes cursor bytes.length)
    -- What stands in front of the block is kept, and the search goes on behind its line.
    let kept ← slice bytes cursor found.start
    removeFrom username text (lineEnd bytes (found.stop + body.length + 1)) (result ++ kept)
  else throw .behindEnd
termination_by (Text.encode text).length + 1 - cursor
decreasing_by
  have behind := le_lineEnd (Text.encode text) (found.stop + body.length + 1)
  have reached := found.reached
  have ordered := found.ordered
  omega

/--
Removes the blocks of a user, each with the lines it stands on.

Here too the pattern with the username in it is taken to be one that the matcher does not refuse.
-/
def remove (username : String) (text : List Char) : Except Fault (List UInt8) :=
  removeFrom username text 0 []

end NixKeeper.Managed.Bytes
