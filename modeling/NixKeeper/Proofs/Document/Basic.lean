import NixKeeper.Document.Basic

/-! Values written into documents are read back. -/

namespace NixKeeper.Document

/-- A list that is written item by item is read item by item. -/
theorem mapM_map {α β γ : Type} {write : α → β} {read : β → Option γ} {back : α → γ}
    {values : List α} (each : ∀ value ∈ values, read (write value) = some (back value)) :
    (values.map write).mapM read = some (values.map back) := by
  -- Each item is read back by itself, and the rest by the induction.
  induction values with
  | nil => rfl
  | cons value values ih =>
    obtain ⟨first, later⟩ := List.forall_mem_cons.1 each
    simp only [List.map_cons, List.mapM_cons, first, ih later, Option.bind_eq_bind, Option.bind_some]
    rfl

/-- A list with an item that cannot be read is not read. -/
theorem mapM_eq_none {α β : Type} {read : α → Option β} {items : List α} {item : α}
    (among : item ∈ items) (unread : read item = none) : items.mapM read = none := by
  induction items with
  | nil => cases among
  | cons first rest ih =>
    rw [List.mapM_cons]
    -- The reading ends at the item, or at one before it.
    rcases List.mem_cons.1 among with rfl | later
    · rw [unread]
      rfl
    · cases read first with
      | none => rfl
      | some value => simp [ih later]

end NixKeeper.Document
