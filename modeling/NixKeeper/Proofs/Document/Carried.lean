import NixKeeper.Proofs.Document.Json

/-!
What the JSON text of a document carries.

A floating-point number that is not finite has no number in JSON, so null is written in its place.
-/

namespace NixKeeper.Json

mutual

/-- The document that is read from the text of a document. -/
def carried : Document → Document
  | .float value => if value.isFinite then .float value else .null
  | .list items => .list (carriedItems items)
  | .table entries => .table (carriedEntries entries)
  -- What is unreadable is written as null, so null comes back.
  | .unreadable => .null
  | document => document

/-- The items that are read from the text of items. -/
def carriedItems : List Document → List Document
  -- Item by item, in step with the documents.
  | [] => []
  | item :: rest => carried item :: carriedItems rest

/-- The entries that are read from the text of entries. -/
def carriedEntries : List (String × Document) → List (String × Document)
  -- The keys stay.
  | [] => []
  | entry :: rest => carriedEntry entry :: carriedEntries rest

/-- The entry that is read from the text of an entry. -/
def carriedEntry : String × Document → String × Document
  | (key, value) => (key, carried value)

end

mutual

/-- What is carried has the same text. -/
theorem write_carried (style : Style) (depth : Nat) :
    ∀ document, write style depth (carried document) = write style depth document
  -- Only a number that is not finite is carried as another document, and both are written as null.
  | .float value => by
    cases finite : value.isFinite <;> simp [carried, write, float, finite]
  | .list [] => rfl
  | .list (first :: rest) => by
    simp only [carried, carriedItems, write, write_carried style (depth + 1) first,
      writeItems_carried style (depth + 1) rest]
  | .table [] => rfl
  | .table (first :: rest) => by
    simp only [carried, carriedEntries, write, writeEntry_carried style (depth + 1) first,
      writeEntries_carried style (depth + 1) rest]
  | .null | .bool _ | .integer _ | .text _ | .unreadable => by simp only [carried, write]

/-- Carried items have the same text. -/
theorem writeItems_carried (style : Style) (depth : Nat) :
    ∀ items, writeItems style depth (carriedItems items) = writeItems style depth items
  -- The brackets are the same, so only the items have to be looked at.
  | [] => rfl
  | item :: rest => by
    simp only [carriedItems, writeItems, write_carried style depth item,
      writeItems_carried style depth rest]

/-- Carried entries have the same text. -/
theorem writeEntries_carried (style : Style) (depth : Nat) :
    ∀ entries, writeEntries style depth (carriedEntries entries) = writeEntries style depth entries
  -- The keys stay, and the values are written alike.
  | [] => rfl
  | entry :: rest => by
    simp only [carriedEntries, writeEntries, writeEntry_carried style depth entry,
      writeEntries_carried style depth rest]

/-- A carried entry has the same text. -/
theorem writeEntry_carried (style : Style) (depth : Nat) :
    ∀ entry, writeEntry style depth (carriedEntry entry) = writeEntry style depth entry
  | (key, value) => by simp only [carriedEntry, writeEntry, write_carried style depth value]

end

/-- Items are carried one by one. -/
theorem carriedItems_eq_map (items : List Document) : carriedItems items = items.map carried := by
  -- The recursion over the items is that of a map.
  induction items with
  | nil => rfl
  | cons item rest ih => rw [carriedItems, ih, List.map_cons]

/-- Entries are carried one by one. -/
theorem carriedEntries_eq_map (entries : List (String × Document)) :
    carriedEntries entries = entries.map fun entry => (entry.1, carried entry.2) := by
  -- Each entry keeps its key.
  induction entries with
  | nil => rfl
  | cons entry rest ih =>
    rw [carriedEntries, ih, List.map_cons, carriedEntry]

mutual

/-- What is carried is plain if each finite number is read back. -/
theorem isPlain_carried : ∀ {document},
    IsPlainWith (fun value => value.isFinite = true → IsFaithful value) document →
      IsPlain (carried document)
  -- A number that is carried as itself is finite, and a finite one is faithful here.
  | .float value, plain => by
    rw [carried]
    split
    · exact plain ‹_›
    · trivial
  | .list items, plain => by
    rw [carried]
    exact itemsPlain_carried plain
  | .table entries, plain => by
    rw [carried]
    exact entriesPlain_carried plain
  | .integer _, plain => plain
  | .null, _ | .bool _, _ | .text _, _ => trivial

/-- Carried items are plain if each finite number is read back. -/
theorem itemsPlain_carried : ∀ {items},
    ItemsPlainWith (fun value => value.isFinite = true → IsFaithful value) items →
      ItemsPlainWith IsFaithful (carriedItems items)
  -- Item by item, in step with the documents.
  | [], _ => trivial
  | _ :: _, plain => ⟨isPlain_carried plain.1, itemsPlain_carried plain.2⟩

/-- Carried entries are plain if each finite number is read back. -/
theorem entriesPlain_carried : ∀ {entries},
    EntriesPlainWith (fun value => value.isFinite = true → IsFaithful value) entries →
      EntriesPlainWith IsFaithful (carriedEntries entries)
  -- Entry by entry, in step with the documents.
  | [], _ => trivial
  | _ :: _, plain => ⟨entryPlain_carried plain.1, entriesPlain_carried plain.2⟩

/-- A carried entry is plain if each finite number is read back. -/
theorem entryPlain_carried : ∀ {entry},
    EntryPlainWith (fun value => value.isFinite = true → IsFaithful value) entry →
      EntryPlainWith IsFaithful (carriedEntry entry)
  | (_, _), plain => isPlain_carried plain

end

/-- What is read from the text of a document is what the text carries. -/
theorem parse?_write_carried (style : Style) {document : Document}
    (plain : IsPlainWith (fun value => value.isFinite = true → IsFaithful value) document) :
    parse? (String.ofList (write style 0 document)) = some (carried document) := by
  -- What is written is also the text of the carried document, and that one is plain.
  rw [← write_carried]
  exact parse?_write style (isPlain_carried plain)

end NixKeeper.Json
