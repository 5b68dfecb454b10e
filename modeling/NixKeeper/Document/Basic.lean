import NixKeeper.Decimal.Binary64
import NixKeeper.Table

/-! Structured documents, the common form of every file format, and the reading of records from them. -/

namespace NixKeeper

/-- The value of a hexadecimal digit, with which both formats tell the code of a character. -/
def hexValue? (c : Char) : Option Nat :=
  -- Letters stand for ten and more, in either case.
  if '0' ≤ c ∧ c ≤ '9' then some (c.toNat - '0'.toNat)
  else if 'a' ≤ c ∧ c ≤ 'f' then some (c.toNat - 'a'.toNat + 10)
  else if 'A' ≤ c ∧ c ≤ 'F' then some (c.toNat - 'A'.toNat + 10)
  else none

/-- A value of a structured file. -/
inductive Document where
  | null
  | bool (value : Bool)
  | integer (value : Int)
  | float (value : Binary64)
  | text (value : String)
  | list (items : List Document)
  | table (entries : List (String × Document))
  /-- A well-formed value without a meaning, which only a reader that skips it accepts. -/
  | unreadable
deriving Inhabited

namespace Document

mutual

/-- Every part of the document has a meaning. -/
def isReadable : Document → Bool
  | .list items => allReadable items
  | .table entries => entriesReadable entries
  -- Only a document that marks a failure is unreadable itself.
  | .unreadable => false
  | _ => true

/-- Every part of every item has a meaning. -/
def allReadable : List Document → Bool
  -- Every item has to be readable.
  | [] => true
  | item :: rest => isReadable item && allReadable rest

/-- Every part of every entry has a meaning. -/
def entriesReadable : List (String × Document) → Bool
  -- Every entry has to be readable.
  | [] => true
  | entry :: rest => entryReadable entry && entriesReadable rest

/-- Every part of an entry has a meaning. -/
def entryReadable : String × Document → Bool
  | (_, document) => isReadable document

end

/-- A truth value. -/
def asBool : Document → Option Bool
  -- Nothing else is taken for a truth value.
  | .bool value => some value
  | _ => none

/-- A text. -/
def asText : Document → Option String
  -- Nothing else is taken for a text.
  | .text value => some value
  | _ => none

/-- A natural number below a bound. -/
def asNatBelow (bound : Nat) : Document → Option Nat
  -- A negative number has no natural number, whatever the bound is.
  | .integer (.ofNat n) => if n < bound then some n else none
  | _ => none

/-- A list whose items are all of one kind. -/
def asListOf {α : Type} (read : Document → Option α) : Document → Option (List α)
  -- One item that is not read makes the list unread.
  | .list items => items.mapM read
  | _ => none

/-- A table whose values are all of one kind; a later entry replaces an earlier one. -/
def asTableOf {α : Type} (read : Document → Option α) : Document → Option (Table α)
  -- One value that is not read makes the table unread.
  | .table entries =>
    (entries.mapM fun entry => (read entry.2).map (entry.1, ·)).map Table.ofList
  | _ => none

/-- A value that may be null. -/
def asNullable {α : Type} (read : Document → Option α) : Document → Option (Option α)
  -- Null is the missing value.
  | .null => some none
  | document => (read document).map some

/-- The content of a name that has none: null in an exact format, else an empty list or table. -/
def isNoContent (exact : Bool) : Document → Bool
  -- Only one of the formats has a null.
  | .null => exact
  | .list [] => !exact
  | .table [] => !exact
  | _ => false

/-- One name of a fixed set, written as a text or as the only key of a table without content. -/
def asName {α : Type} (exact : Bool) (find : String → Option α) : Document → Option α
  -- A name outside of the set is refused.
  | .text name => find name
  | .table [(name, content)] => if content.isNoContent exact then find name else none
  | _ => none

/--
The named fields of a record.

A record is a table in which no known name occurs twice, or the list of its values in the order of
the names; an exact format refuses a list that is longer than the names.
-/
def asRecord (exact : Bool) (names : List String) : Document → Option (List (String × Document))
  | .table entries =>
    -- A name that nobody knows may stand there any number of times.
    if names.all fun name => entries.countP (·.1 == name) ≤ 1 then some entries else none
  | .list items =>
    -- The values take the names in their order, and missing ones leave their fields open.
    if exact && names.length < items.length then none else some (names.zip items)
  | _ => none

/-- A field that must be present. -/
def required {α : Type} (fields : List (String × Document)) (name : String)
    (read : Document → Option α) : Option α :=
  -- A field that is missing is an error, as is one that is not read.
  (fields.lookup name).bind read

/-- A field that has a default. -/
def optional {α : Type} (fields : List (String × Document)) (name : String)
    (read : Document → Option α) (default : α) : Option α :=
  -- A field that is missing has its default, and one that is not read is an error.
  match fields.lookup name with
  | some document => read document
  | none => some default

/-- A list of texts. -/
def ofTexts (texts : List String) : Document :=
  .list (texts.map .text)

/-- A table of values. -/
def ofTable {α : Type} (write : α → Document) (table : Table α) : Document :=
  .table (table.entries.map fun entry => (entry.1, write entry.2))

/-- A text, or null. -/
def ofNullable : Option String → Document
  -- A missing value is written as null.
  | some value => .text value
  | none => .null

/-- A field that is left out when it has no value. -/
def field? {α : Type} (name : String) (write : α → Document) :
    Option α → List (String × Document)
  -- A missing value is not written at all.
  | some value => [(name, write value)]
  | none => []

end Document

end NixKeeper
