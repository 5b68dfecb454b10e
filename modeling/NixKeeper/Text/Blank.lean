/-! Blank characters, and the trimming and splitting that depend on them. -/

namespace NixKeeper.Text

/-- A character with the Unicode `White_Space` property. -/
def isBlank (c : Char) : Bool :=
  let code := c.toNat
  -- The first range holds the tab and the line breaks of ASCII.
  (0x09 ≤ code && code ≤ 0x0D) || code == 0x20 || code == 0x85 || code == 0xA0 ||
    code == 0x1680 || (0x2000 ≤ code && code ≤ 0x200A) || code == 0x2028 || code == 0x2029 ||
    code == 0x202F || code == 0x205F || code == 0x3000

/-- A space or a tab, the blanks that do not end a line. -/
def isSpace (c : Char) : Bool :=
  c == ' ' || c == '\t'

/-- The text without the characters of a class at its end. -/
def dropEndWhile (p : Char → Bool) (text : List Char) : List Char :=
  -- Reversal turns the end of the text into a beginning.
  (text.reverse.dropWhile p).reverse

/-- The text without its leading blanks. -/
def trimStart (text : List Char) : List Char :=
  text.dropWhile isBlank

/-- The text without its trailing blanks. -/
def trimEnd (text : List Char) : List Char :=
  dropEndWhile isBlank text

/-- The text without blanks at either end. -/
def trim (text : List Char) : List Char :=
  trimEnd (trimStart text)

/-- Every character of the text is blank. -/
def allBlank (text : List Char) : Bool :=
  text.all isBlank

/-- The maximal stretches of characters that are not blank. -/
def words (text : List Char) : List (List Char) :=
  -- Neighbouring blanks enclose empty stretches, which are no words.
  (text.splitOnP isBlank).filter (!·.isEmpty)

/-- The text cut at its line feeds, which belong to no line. -/
def lines (text : List Char) : List (List Char) :=
  text.splitOn '\n'

end NixKeeper.Text
