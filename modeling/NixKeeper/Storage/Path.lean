import NixKeeper.Text.Blank
import NixKeeper.Text.Search

/-! Paths of files, in which only forward slashes divide the parts. -/

namespace NixKeeper

/-- A path without backslashes. -/
structure Path where
  text : String
  forward : '\\' ∉ text.toList
deriving DecidableEq

namespace Path

/-- A forward slash in the place of a backslash. -/
def slash (c : Char) : Char :=
  if c = '\\' then '/' else c

/-- No backslash is left. -/
theorem backslash_not_mem_map_slash (text : List Char) : '\\' ∉ text.map slash := by
  -- Every character of the result has gone through the replacement.
  simp only [List.mem_map, not_exists, not_and]
  intro c _ same
  unfold slash at same
  split at same
  · exact absurd same (by decide)
  · contradiction

/-- The path that a text stands for. -/
def ofText (text : String) : Path :=
  -- Backslashes become slashes, so none is left.
  ⟨String.ofList (text.toList.map slash), by
    rw [String.toList_ofList]
    exact backslash_not_mem_map_slash text.toList⟩

/-- The slash between two paths, unless the first one ends with it or is empty. -/
def separator (text : List Char) : List Char :=
  -- An empty path continued by another is that other, and not one from the top.
  if text.isEmpty || text.getLast? == some '/' then [] else ['/']

/-- A path continued by another text. -/
def join (path : Path) (segment : String) : Path :=
  -- The segment may have slashes of its own.
  ⟨String.ofList
      (path.text.toList ++ separator path.text.toList ++ segment.toList.map slash), by
    rw [String.toList_ofList]
    simp only [List.mem_append, not_or]
    refine ⟨⟨path.forward, ?_⟩, backslash_not_mem_map_slash segment.toList⟩
    unfold separator
    split <;> simp⟩

/-- The last part of the path. -/
def fileName? (path : Path) : Option (List Char) :=
  -- Slashes at the end do not make the last part empty.
  let name := Text.afterLast '/' (Text.dropEndWhile (· == '/') path.text.toList)
  if name.isEmpty then none else some name

/-- What follows the last point of the last part; a part that only begins with a point has none. -/
def extension? (path : Path) : Option (List Char) := do
  let name ← path.fileName?
  let extension := Text.afterLast '.' name
  -- Without a point the extension would be the whole name, and at the head it would hide the name.
  if name.length ≤ extension.length + 1 then none else some extension

end Path

end NixKeeper
