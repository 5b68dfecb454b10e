/-! The characters of names and of paths made of names. -/

namespace NixKeeper.Text

/-- A character of a name: a letter or digit of ASCII, an underscore or a hyphen. -/
def isNameChar (c : Char) : Bool :=
  c.isAlphanum || c == '_' || c == '-'

/-- A character of a path: one of a name, or the point between names. -/
def isPathChar (c : Char) : Bool :=
  isNameChar c || c == '.'

end NixKeeper.Text
