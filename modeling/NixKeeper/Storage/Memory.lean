import NixKeeper.Storage.Basic
import NixKeeper.Table

/-! Files kept in memory, some of which may be out of reach. -/

namespace NixKeeper

/-- Files in memory. -/
structure Memory where
  files : Table String
  /-- The paths of files that are there and cannot be read. -/
  unreadable : List Path
  /-- The paths that cannot be written. -/
  unwritable : List Path
  /-- The number of writes that succeeded. -/
  writes : Nat
deriving DecidableEq

namespace Memory

/-- Files that can all be read and written. -/
def ofFiles (files : Table String) : Memory :=
  ⟨files, [], [], 0⟩

/-- The file at a path that is within reach. -/
def file? (memory : Memory) (path : Path) : Option String :=
  memory.files.get? path.text

instance : Storage Memory where
  -- A file out of reach is there all the same.
  contains memory path := memory.unreadable.contains path || (memory.file? path).isSome
  read memory path :=
    if memory.unreadable.contains path then .error (.lockFailed path.text)
    else
      match memory.file? path with
      | some text => .ok text
      | none => .error (.notFound path.text)
  write memory path text :=
    -- A write that fails is not counted and changes nothing.
    if memory.unwritable.contains path then (.error (.lockFailed path.text), memory)
    else
      (.ok (), { memory with
        files := memory.files.insert path.text text
        writes := memory.writes + 1 })

end Memory

end NixKeeper
