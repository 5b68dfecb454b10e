/-!
Blocks in braces.

Braces between double quotes do not count, and neither does a quote behind a backslash.
-/

namespace NixKeeper.Managed

/--
The text up to the brace that closes a block, and the text behind that brace.

The depth counts the blocks opened since; `quoted` tells whether the text begins between quotes, and
`escaped` whether it follows a backslash.
-/
def splitBlock (depth : Nat) (quoted escaped : Bool) :
    List Char → Option (List Char × List Char)
  | [] => none
  | c :: rest =>
    -- Whatever the character does, it belongs to the block and may protect the next one.
    let inside (depth : Nat) (quoted : Bool) :=
      (splitBlock depth quoted (c == '\\') rest).map fun (body, after) => (c :: body, after)
    if c = '"' ∧ !escaped then inside depth (!quoted)
    else if c = '{' ∧ !quoted then inside (depth + 1) quoted
    else if c = '}' ∧ !quoted then
      match depth with
      -- No block is open inside, so this brace closes the block itself.
      | 0 => some ([], rest)
      | depth + 1 => inside depth quoted
    else inside depth quoted

/-- The rest of a text from a byte offset on, and whether a backslash stands before it. -/
def textFrom? : Nat → Bool → List Char → Option (Bool × List Char)
  | 0, escaped, text => some (escaped, text)
  | _ + 1, _, [] => none
  | offset + 1, _, c :: rest =>
    -- An offset inside a character leads to no text.
    if c.utf8Size ≤ offset + 1 then textFrom? (offset + 1 - c.utf8Size) (c == '\\') rest else none

/-- The text of a block from a byte offset just behind its opening brace. -/
def extractBlock (text : List Char) (start : Nat) : Option (List Char) := do
  -- A backslash just before the offset protects a quote at it.
  let (escaped, rest) ← textFrom? start false text
  let (body, _) ← splitBlock 0 false escaped rest
  return body

end NixKeeper.Managed
