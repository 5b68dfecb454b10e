/-! Steps that may fail, one after another: the first failure is the failure of all. -/

namespace NixKeeper

/-- What comes out of two steps in turn comes out of the second one. -/
theorem bind_eq_ok_iff {ε α β : Type} {first : Except ε α} {next : α → Except ε β} {result : β} :
    first >>= next = .ok result ↔ ∃ value, first = .ok value ∧ next value = .ok result := by
  -- A first step that fails ends both sides.
  cases first <;> simp [bind, Except.bind]

/-- Two checks in turn are passed if each of them is. -/
theorem checks_eq_ok_iff {ε : Type} {first second : Except ε Unit} :
    (first >>= fun _ => second) = .ok () ↔ first = .ok () ∧ second = .ok () := by
  -- A check answers nothing but that it has passed.
  rw [bind_eq_ok_iff]
  exact ⟨fun ⟨⟨⟩, passed, also⟩ => ⟨passed, also⟩, fun ⟨passed, also⟩ => ⟨(), passed, also⟩⟩

/-- A check of a list is passed if each item passes it. -/
theorem forM_eq_ok_iff {ε α : Type} {items : List α} {check : α → Except ε Unit} :
    items.forM check = .ok () ↔ ∀ item ∈ items, check item = .ok () := by
  -- The checks are made one after another, and the first failure ends them.
  induction items with
  | nil => simp [List.forM, pure, Except.pure]
  | cons item rest ih => rw [List.forM, checks_eq_ok_iff, ih, List.forall_mem_cons]

/-- Two steps in turn fail if one of them does. -/
theorem bind_eq_error_iff {ε α β : Type} {first : Except ε α} {next : α → Except ε β} {error : ε} :
    first >>= next = .error error ↔
      first = .error error ∨ ∃ value, first = .ok value ∧ next value = .error error := by
  -- The failure is that of the first step, or of the one after it.
  cases first <;> simp [bind, Except.bind]

/-- A list is gone through without a failure if no step fails. -/
theorem mapM_eq_ok {ε α β : Type} {items : List α} {step : α → Except ε β} {result : α → β}
    (done : ∀ item ∈ items, step item = .ok (result item)) :
    items.mapM step = .ok (items.map result) := by
  induction items with
  | nil => rfl
  | cons item rest ih =>
    obtain ⟨here, later⟩ := List.forall_mem_cons.1 done
    -- No item stops the walk, so it reaches the end of the list.
    rw [List.mapM_cons, here, ih later]
    rfl

/-- No step fails where a list is gone through without a failure. -/
theorem exists_of_mapM_eq_ok {ε α β : Type} {items : List α} {step : α → Except ε β}
    {results : List β} (done : items.mapM step = .ok results) :
    ∀ item ∈ items, ∃ result, step item = .ok result := by
  induction items generalizing results with
  | nil => exact List.forall_mem_nil _
  | cons item rest ih =>
    -- The first step and all later ones come before the result.
    rw [List.mapM_cons] at done
    obtain ⟨value, here, done⟩ := bind_eq_ok_iff.1 done
    obtain ⟨values, later, -⟩ := bind_eq_ok_iff.1 done
    exact List.forall_mem_cons.2 ⟨⟨value, here⟩, ih later⟩

/-- A failure on the way through a list is the failure of a step. -/
theorem exists_of_mapM_eq_error {ε α β : Type} {items : List α} {step : α → Except ε β} {error : ε}
    (failed : items.mapM step = .error error) : ∃ item ∈ items, step item = .error error := by
  induction items with
  | nil => cases failed
  | cons item rest ih =>
    rw [List.mapM_cons] at failed
    -- The first step fails, or a later one does; the list of results alone cannot fail.
    rcases bind_eq_error_iff.1 failed with here | ⟨value, -, failed⟩
    · exact ⟨item, List.mem_cons_self, here⟩
    · rcases bind_eq_error_iff.1 failed with later | ⟨values, -, never⟩
      · obtain ⟨other, among, same⟩ := ih later
        exact ⟨other, List.mem_cons_of_mem _ among, same⟩
      · cases never

end NixKeeper
