/-! Finding, cutting and replacing stretches of a text. -/

namespace NixKeeper.Text

/-- The text before and after the first occurrence of `needle`. -/
def splitFirst (needle : List Char) : List Char → Option (List Char × List Char)
  -- Only the empty text occurs in the empty text.
  | [] => if needle.isEmpty then some ([], []) else none
  | c :: rest =>
    match needle.isPrefixOf? (c :: rest) with
    | some after => some ([], after)
    | none => (splitFirst needle rest).map fun (before, after) => (c :: before, after)

/-- The text between a given beginning and a given ending, which may not overlap. -/
def between? (beginning ending text : List Char) : Option (List Char) :=
  -- The ending is looked for in what is left, so the two cannot share characters.
  (beginning.isPrefixOf? text).bind fun rest =>
    (ending.reverse.isPrefixOf? rest.reverse).map List.reverse

/-- The text occurs somewhere. -/
def contains (needle text : List Char) : Bool :=
  (splitFirst needle text).isSome

/--
The values recognised in a text, from left to right.

A recogniser sees the text from some character on and answers with a value and the text that
follows the recognised stretch; that stretch is not searched again.
The first argument counts the characters that still belong to the last recognised stretch.
-/
def findAllFrom {α : Type} (recognise : List Char → Option (α × List Char)) :
    Nat → List Char → List α
  | _, [] => []
  -- A recognised stretch is passed over one character at a time.
  | skip + 1, _ :: rest => findAllFrom recognise skip rest
  | 0, c :: rest =>
    match recognise (c :: rest) with
    | some (value, after) =>
      -- The first character of the stretch is passed here, the others are still to come.
      value :: findAllFrom recognise (rest.length - after.length) rest
    | none => findAllFrom recognise 0 rest

/-- The values recognised anywhere in a text, from left to right and without overlap. -/
def findAll {α : Type} (recognise : List Char → Option (α × List Char)) (text : List Char) :
    List α :=
  -- Nothing has been passed at the beginning.
  findAllFrom recognise 0 text

/-- The first value recognised in a text. -/
def findFirst {α : Type} (recognise : List Char → Option α) : List Char → Option α
  -- The end of the text is tried, too.
  | [] => recognise []
  | c :: rest => (recognise (c :: rest)).orElse fun _ => findFirst recognise rest

/--
Puts others in the place of the stretches recognised in a text.

A recogniser answers with what takes the place of the stretch and with the text that follows it.
The first argument counts the characters that still belong to the last recognised stretch.
-/
def substituteFrom (recognise : List Char → Option (List Char × List Char)) :
    Nat → List Char → List Char
  | _, [] => []
  -- The characters of a replaced stretch leave no trace.
  | skip + 1, _ :: rest => substituteFrom recognise skip rest
  | 0, c :: rest =>
    match recognise (c :: rest) with
    | some (replacement, after) =>
      replacement ++ substituteFrom recognise (rest.length - after.length) rest
    | none => c :: substituteFrom recognise 0 rest

/-- Replaces the stretches recognised in a text, from left to right and without overlap. -/
def substituteAll (recognise : List Char → Option (List Char × List Char)) (text : List Char) :
    List Char :=
  -- Nothing has been passed at the beginning.
  substituteFrom recognise 0 text

/--
Replaces every occurrence of `needle`, from left to right and without overlap.

The empty text occurs before every character and at the end.
-/
def replaceAll (needle replacement text : List Char) : List Char :=
  -- An empty text cannot be passed over, so its occurrences are named one by one.
  if needle.isEmpty then replacement ++ text.flatMap (· :: replacement)
  else substituteAll (fun text => (needle.isPrefixOf? text).map (replacement, ·)) text

/-- The text behind a beginning, or else the whole text. -/
def dropBeginning (beginning text : List Char) : List Char :=
  (beginning.isPrefixOf? text).getD text

/-- What stands behind the last occurrence of a character, or else the whole text. -/
def afterLast (separator : Char) (text : List Char) : List Char :=
  -- From the end backwards, the first separator is the last one.
  (text.reverse.takeWhile (· != separator)).reverse

/-- Texts joined with a separator between neighbours. -/
def join (separator : List Char) (texts : List (List Char)) : List Char :=
  (texts.intersperse separator).flatten

end NixKeeper.Text
