/-!
Patterns for stretches of a text.

A repetition takes all the characters that it can, and gives some back only if the parts behind it
do not match otherwise.
-/

namespace NixKeeper.Text

/-- A part of a pattern. -/
inductive Part where
  /-- One character of a class. -/
  | one (accepts : Char → Bool)
  /-- Any number of characters of a class. -/
  | many (accepts : Char → Bool)

/-- The text behind a repetition and the parts that follow it. -/
def matchMany? (accepts : Char → Bool) (next : List Char → Option (List Char)) :
    List Char → Option (List Char)
  | [] => next []
  | c :: rest =>
    -- A character is given back only after all longer repetitions have failed.
    if accepts c then (matchMany? accepts next rest).orElse fun _ => next (c :: rest)
    else next (c :: rest)

/-- The text behind a part and the parts that follow it. -/
def Part.match? (part : Part) (next : List Char → Option (List Char)) (text : List Char) :
    Option (List Char) :=
  -- A part for many characters tries the longest stretch first.
  match part, text with
  | .one _, [] => none
  | .one accepts, c :: rest => if accepts c then next rest else none
  | .many accepts, text => matchMany? accepts next text

/-- The text behind the stretch that a pattern matches at the head of a text. -/
def matchParts? (parts : List Part) : List Char → Option (List Char) :=
  parts.foldr Part.match? some

end NixKeeper.Text
