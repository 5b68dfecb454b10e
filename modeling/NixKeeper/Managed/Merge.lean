import NixKeeper.Managed.BlankRun
import NixKeeper.Managed.Region
import NixKeeper.Managed.UserBlock

/-! A freshly generated file laid over the one that is there. -/

namespace NixKeeper.Managed

/-- The text before a region without the users that the new region defines. -/
def scrub (fresh : Region) (before : List Char) : List Char :=
  -- Removed blocks may leave blank lines next to one another, so these are joined last.
  collapseBlankLines ((definedUsers fresh.managed).foldl
    (fun text username => removeUserBlock username text) before)

/--
The existing text with its managed region replaced by the generated one.

The text behind the region stays as it is. Where either text has no region, the generated text is
taken as a whole.
-/
def merge (existing generated : List Char) : List Char :=
  match locate generated, locate existing with
  -- Both ends of the result are the existing text, and its middle is the generated region.
  | some fresh, some current => scrub fresh current.before ++ fresh.managed ++ current.after
  | _, _ => generated

end NixKeeper.Managed
