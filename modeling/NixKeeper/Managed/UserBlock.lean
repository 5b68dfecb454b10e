import NixKeeper.Managed.Block
import NixKeeper.Text.Blank
import NixKeeper.Text.Name
import NixKeeper.Text.Search

/-! Definitions of user accounts in a text, and their removal. -/

namespace NixKeeper.Managed

/-- The path under which user accounts are defined. -/
def userPath : List Char :=
  "users.users.".toList

/-- The text behind blanks and an expected character. -/
def afterBlanks? (expected : Char) (text : List Char) : Option (List Char) :=
  [expected].isPrefixOf? (Text.trimStart text)

/-- The username of a definition at the head of a text, and what follows the equals sign. -/
def definition? (text : List Char) : Option (String × List Char) := do
  let rest ← userPath.isPrefixOf? text
  -- A name is taken as far as it reaches, so a longer name is another user.
  let name := rest.takeWhile Text.isNameChar
  if name.isEmpty then none
  let after ← afterBlanks? '=' (rest.dropWhile Text.isNameChar)
  return (String.ofList name, after)

/-- The usernames defined in a text, in the order in which they are first defined. -/
def definedUsers (text : List Char) : List String :=
  -- The first definition of a name gives it its place.
  (Text.findAll definition? text).foldl
    (fun names name => if names.contains name then names else names ++ [name]) []

/-- The text behind the brace that opens the block of a user. -/
def userHead? (username : String) (text : List Char) : Option (List Char) := do
  -- The name is compared as a text and not as a pattern.
  let rest ← (userPath ++ username.toList).isPrefixOf? (text.dropWhile Text.isSpace)
  let rest ← afterBlanks? '=' rest
  afterBlanks? '{' rest

/-- The text behind an optional character. -/
def skipChar (optional : Char) (text : List Char) : List Char :=
  ([optional].isPrefixOf? text).getD text

/-- The text behind the semicolon and the line break that may follow a block. -/
def afterBlock (text : List Char) : List Char :=
  let rest := skipChar ';' (text.dropWhile Text.isSpace)
  -- A carriage return belongs to the line break that it precedes.
  skipChar '\n' (rest.dropWhile fun c => Text.isSpace c || c == '\r')

/--
Removes the blocks of a user from a text whose first characters belong to a removed block.

The first argument counts those characters; the second tells whether the text begins a line.
A block that is never closed stays, together with everything behind it.
-/
def removeUserFrom (username : String) : Nat → Bool → List Char → List Char
  | _, _, [] => []
  | skip + 1, _, c :: rest => removeUserFrom username skip (c == '\n') rest
  | 0, lineStart, c :: rest =>
    -- A definition counts only where nothing but spaces stands before it on its line.
    match if lineStart then userHead? username (c :: rest) else none with
    | none => c :: removeUserFrom username 0 (c == '\n') rest
    | some body =>
      match splitBlock 0 false false body with
      -- The search ends here, because the end of this block is unknown.
      | none => c :: rest
      | some (_, after) =>
        -- The first character is dropped here, the others of the block are still to come.
        removeUserFrom username (rest.length - (afterBlock after).length) (c == '\n') rest

/--
Removes the blocks of a user, each with the lines it stands on.

The search is taken to be possible for every username. A matcher that limits the size of its patterns
refuses one with a username of very many letters, and the text then stays as it is.
-/
def removeUserBlock (username : String) (text : List Char) : List Char :=
  removeUserFrom username 0 true text

end NixKeeper.Managed
