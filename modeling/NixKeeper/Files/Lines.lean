import NixKeeper.Managed.Region
import NixKeeper.Nix.Literal

/-! Generated text as lines, each at its depth of nesting. -/

namespace NixKeeper.Files

/-- A line of generated text. -/
structure Line where
  /-- The number of blocks around the line, each of which indents it by two spaces. -/
  depth : Nat
  text : List Char
deriving DecidableEq

/-- A single line at the outermost depth. -/
def line (text : List Char) : List Line :=
  [⟨0, text⟩]

/-- An empty line. -/
def blank : List Line :=
  line []

/-- A value assigned to a path. -/
def assign (path value : List Char) : List Line :=
  line (path ++ " = ".toList ++ value ++ [';'])

/-- A quoted text assigned to a path. -/
def assignText (path value : List Char) : List Line :=
  assign path (Nix.quote value)

/-- A path that is switched on. -/
def switchOn (path : List Char) : List Line :=
  assign path "true".toList

/-- The lines one step deeper. -/
def indent (lines : List Line) : List Line :=
  lines.map fun line => { line with depth := line.depth + 1 }

/-- Lines between an opening and a closing line, and deeper than these. -/
def block (opening : List Char) (body : List Line) (closing : List Char) : List Line :=
  -- Blocks inside the body are indented already, so depths add up.
  line opening ++ indent body ++ line closing

/-- The line that warns a reader of the file. -/
def notice : List Char :=
  "# Managed by NixForge. Edits inside this section are replaced on the next sync.".toList

/-- Lines between the markers of a managed region. -/
def region (body : List Line) : List Line :=
  line Managed.beginMarker ++ line notice ++ body ++ line Managed.endMarker

/-- The characters of a line with its indentation and its line feed; an empty line has no blanks. -/
def Line.render (line : Line) : List Char :=
  -- No line ends with blanks.
  if line.text.isEmpty then ['\n']
  else List.replicate (2 * line.depth) ' ' ++ line.text ++ ['\n']

/-- The text of several lines. -/
def render (lines : List Line) : List Char :=
  lines.flatMap Line.render

end NixKeeper.Files
