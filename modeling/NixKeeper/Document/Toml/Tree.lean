import NixKeeper.Document.Basic

/-! Tables under construction, and what may still be added to them. -/

namespace NixKeeper.Toml

/-- How a table came to be, which decides what may extend it. -/
inductive Origin where
  /-- It lies on the way to a table that has a header. -/
  | implied
  /-- It lies on the way of a dotted key. -/
  | dotted
  /-- It has a header of its own, or is the file itself. -/
  | header
deriving DecidableEq

/-- A value or a table that may still grow. -/
inductive Node where
  | value (document : Document)
  | table (origin : Origin) (entries : List (String × Node))
  /-- The tables under one double-bracket header, in order. -/
  | tables (items : List (List (String × Node)))
deriving Inhabited

/-- The entries of a table. -/
abbrev Entries := List (String × Node)

/-- Sets the entry of a key from what was there before; a new key is added at the end. -/
def updateKey (key : String) (change : Option Node → Option Node) : Entries → Option Entries
  | [] => (change none).map fun node => [(key, node)]
  | (name, node) :: rest =>
    -- Keys are distinct, so the first one found is the only one.
    if name = key then (change (some node)).map fun changed => (name, changed) :: rest
    else (updateKey key change rest).map ((name, node) :: ·)

/-- Changes the last of several tables. -/
def updateLast (change : Entries → Option Entries) : List Entries → Option (List Entries)
  -- A list without items has none to be changed.
  | [] => none
  | [last] => (change last).map ([·])
  | first :: rest => (updateLast change rest).map (first :: ·)

/--
Changes the table at the end of a path, creating what is missing on the way.

The way goes through the last table of a list; the way of a dotted key may not go through a table
that has a header, and no way goes through a value.
-/
def enter (byDots : Bool) (change : Origin → Entries → Option Entries) :
    List String → Origin → Entries → Option Entries
  | [], origin, entries => change origin entries
  | key :: path, _, entries =>
    updateKey key (fun
      | none =>
        -- A table made on the way is marked by what led through it.
        let origin := if byDots then .dotted else .implied
        (enter byDots change path origin []).map (.table origin)
      | some (.value _) => none
      | some (.tables items) =>
        (updateLast (enter byDots change path .header) items).map .tables
      | some (.table origin inner) =>
        -- A table with a header is complete once another header follows.
        if byDots && origin == .header then none
        else (enter byDots change path origin inner).map (.table origin)) entries

/-- Adds a value under a dotted key, which has to be new. -/
def addValue (path : List String) (key : String) (document : Document) :
    Origin → Entries → Option Entries :=
  enter true (fun origin entries =>
    -- A table made by dotted keys grows by dotted keys, and no other table does.
    if (origin == .dotted) == path.isEmpty then none
    else updateKey key (fun
      | none => some (.value document)
      | some _ => none) entries) path

/-- Opens the table of a header; only a table that was implied so far may be there. -/
def openTable (path : List String) (key : String) : Entries → Option Entries :=
  enter false (fun _ entries =>
    updateKey key (fun
      | none => some (.table .header [])
      -- A table with a header of its own cannot be opened again.
      | some (.table .implied inner) => some (.table .header inner)
      | some _ => none) entries) path .header

/-- Opens one more table of a double-bracket header. -/
def openListTable (path : List String) (key : String) : Entries → Option Entries :=
  enter false (fun _ entries =>
    updateKey key (fun
      -- The first header of its kind makes the list, and each further one adds a table to it.
      | none => some (.tables [[]])
      | some (.tables items) => some (.tables (items ++ [[]]))
      | some _ => none) entries) path .header

/-- The keys before the last one, and the last one. -/
def splitLastKey : List String → Option (List String × String)
  -- A key has at least one part.
  | [] => none
  | [key] => some ([], key)
  | key :: rest => (splitLastKey rest).map fun (path, last) => (key :: path, last)

mutual

/-- The document of a finished node. -/
def Node.document : Node → Document
  -- How a table came about does not matter for what it says.
  | .value document => document
  | .table _ entries => .table (entryDocuments entries)
  | .tables items => .list (tableDocuments items)

/-- The documents of the entries of a table. -/
def entryDocuments : List (String × Node) → List (String × Document)
  -- The order of the entries is kept.
  | [] => []
  | entry :: rest => entryDocument entry :: entryDocuments rest

/-- The document of one entry. -/
def entryDocument : String × Node → String × Document
  | (key, node) => (key, node.document)

/-- The documents of the tables in a list. -/
def tableDocuments : List (List (String × Node)) → List Document
  -- The order of the tables is kept.
  | [] => []
  | entries :: rest => .table (entryDocuments entries) :: tableDocuments rest

end

end NixKeeper.Toml
