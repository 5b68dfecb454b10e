import NixKeeper.Text.Blank
import NixKeeper.Text.Search

/-! Runs of blank lines, of which a single one is kept. -/

namespace NixKeeper.Managed

/-- The text from its first line feed to its last, without what follows it. -/
def upToLastBreak (run : List Char) : List Char :=
  Text.dropEndWhile (· != '\n') run

/-- A run of blanks from a line feed on that holds three of them, with what takes its place. -/
def blankRun? : List Char → Option (List Char × List Char)
  | '\n' :: rest =>
    -- The run takes every blank there is, and only its last line feeds decide where it ends.
    let run := '\n' :: rest.takeWhile Text.isBlank
    if 3 ≤ run.count '\n' then
      -- What follows the last line feed indents the next line, which stays.
      some (['\n', '\n'], ('\n' :: rest).drop (upToLastBreak run).length)
    else none
  | _ => none

/-- Leaves one blank line where there are several in a row. -/
def collapseBlankLines (text : List Char) : List Char :=
  Text.substituteAll blankRun? text

end NixKeeper.Managed
