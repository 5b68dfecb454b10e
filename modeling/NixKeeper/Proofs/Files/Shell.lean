import NixKeeper.Files.Shell
import NixKeeper.Proofs.Text.Search

/-! Where the program of a shell stands in the shell's expression. -/

namespace NixKeeper.Files

/-- The program stands behind the last point and the last slash. -/
theorem eq_of_shellProgram? {shell program : List Char} (found : shellProgram? shell = some program) :
    program = Text.afterLast '/' (Text.afterLast '.' shell) := by
  rw [shellProgram?] at found
  -- A program is given only by the branch that cuts the path off.
  split at found
  · cases found
  · exact (Option.some.inj found).symm

/-- The program of a shell is a part of the shell's expression. -/
theorem infix_of_shellProgram? {shell program : List Char} (found : shellProgram? shell = some program) :
    program <:+: shell := by
  rw [eq_of_shellProgram? found]
  -- Each of the two cuts keeps an end of the text.
  exact ((Text.afterLast_suffix _ _).trans (Text.afterLast_suffix _ _)).isInfix

/-- No point stands in the program of a shell. -/
theorem point_not_mem_of_shellProgram? {shell program : List Char}
    (found : shellProgram? shell = some program) : '.' ∉ program := by
  rw [eq_of_shellProgram? found]
  -- The first cut keeps no point, and the second only makes the text shorter.
  exact fun within => Text.not_mem_afterLast '.' shell ((Text.afterLast_suffix _ _).subset within)

end NixKeeper.Files
