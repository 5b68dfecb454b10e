import NixKeeper.Managed.Region
import NixKeeper.Proofs.Text.Search

/-! Where the managed region of a text lies, stated without a search. -/

namespace NixKeeper.Managed

/-- A hash sign stands only at the head of the opening marker. -/
theorem hash_not_mem_tail_beginMarker : '#' ∉ beginMarker.tail := by
  -- The marker is a closed text.
  decide

/-- A hash sign stands only at the head of the closing marker. -/
theorem hash_not_mem_tail_endMarker : '#' ∉ endMarker.tail := by
  -- The marker is a closed text.
  decide

/-- No line feed stands in the opening marker. -/
theorem lineFeed_not_mem_beginMarker : '\n' ∉ beginMarker := by
  -- The marker is a closed text.
  decide

/-- No line feed stands in the closing marker. -/
theorem lineFeed_not_mem_endMarker : '\n' ∉ endMarker := by
  -- The marker is a closed text.
  decide

/-- The opening marker is not empty. -/
theorem beginMarker_ne_nil : beginMarker ≠ [] := by
  -- The marker is a closed text.
  decide

/-- The closing marker is not empty. -/
theorem endMarker_ne_nil : endMarker ≠ [] := by
  -- The marker is a closed text.
  decide

/-- An occurrence that ends before the opening marker does stands wholly before it. -/
theorem beginMarker_infix_append_dropLast {before : List Char} :
    beginMarker <:+: before ++ beginMarker.dropLast ↔ beginMarker <:+: before := by
  -- A marker cannot run into the next one, because its only hash sign is at its head.
  have head : beginMarker.dropLast.head? = some '#' := by decide
  have apart : ∀ c ∈ beginMarker.dropLast.head?, c ∉ beginMarker.tail := by
    rw [head]
    simpa using hash_not_mem_tail_beginMarker
  rw [Text.infix_append_of_head apart, or_iff_left (Text.not_infix_dropLast beginMarker_ne_nil)]

/-- An occurrence that ends before the closing marker does stands wholly before it. -/
theorem endMarker_infix_append_dropLast {before : List Char} :
    endMarker <:+: before ++ endMarker.dropLast ↔ endMarker <:+: before := by
  have head : endMarker.dropLast.head? = some '#' := by decide
  -- A marker does not begin inside of another one, as only its first character is a hash sign.
  have apart : ∀ c ∈ endMarker.dropLast.head?, c ∉ endMarker.tail := by
    rw [head]
    simpa using hash_not_mem_tail_endMarker
  rw [Text.infix_append_of_head apart, or_iff_left (Text.not_infix_dropLast endMarker_ne_nil)]

/--
A region is where a text has an opening marker and then a closing one, each the first of its kind.

No position is compared here, so parts of different texts can be put together.
-/
theorem locate_eq_some_iff {text : List Char} {region : Region} :
    locate text = some region ↔
      text = region.before ++ beginMarker ++ region.body ++ endMarker ++ region.after ∧
        ¬ beginMarker <:+: region.before ∧ ¬ endMarker <:+: region.before ∧
        ¬ endMarker <:+: region.body := by
  -- Both searches are turned into statements about what stands before the markers.
  obtain ⟨before, body, after⟩ := region
  constructor
  · intro found
    cases atBegin : Text.splitFirst beginMarker text with
    | none => simp [locate, atBegin] at found
    | some cut =>
      obtain ⟨front, rest⟩ := cut
      -- The search goes on only where no closing marker stands before the opening one.
      cases spoiled : Text.contains endMarker front with
      | true => simp [locate, atBegin, spoiled] at found
      | false =>
        cases atEnd : Text.splitFirst endMarker rest with
        | none => simp [locate, atBegin, spoiled, atEnd] at found
        | some cut =>
          obtain ⟨inner, behind⟩ := cut
          simp only [locate, atBegin, spoiled, atEnd, Option.bind_eq_bind, Option.bind_some,
            Bool.false_eq_true, if_false, pure, Option.some.injEq, Region.mk.injEq] at found
          obtain ⟨rfl, rfl, rfl⟩ := found
          rw [Text.splitFirst_eq_some_iff beginMarker_ne_nil,
            beginMarker_infix_append_dropLast] at atBegin
          rw [Text.splitFirst_eq_some_iff endMarker_ne_nil,
            endMarker_infix_append_dropLast] at atEnd
          refine ⟨?_, atBegin.2, fun within => ?_, atEnd.2⟩
          · simp [atBegin.1, atEnd.1]
          · simp [(Text.contains_iff endMarker_ne_nil).2 within] at spoiled
  · rintro ⟨whole, noBegin, noEnd, noEndInside⟩
    have atBegin : Text.splitFirst beginMarker text = some (before, body ++ endMarker ++ after) :=
      (Text.splitFirst_eq_some_iff beginMarker_ne_nil).2
        ⟨by simp [whole], fun within => noBegin (beginMarker_infix_append_dropLast.1 within)⟩
    have unspoiled : Text.contains endMarker before = false := by
      rw [← Bool.not_eq_true, Text.contains_iff endMarker_ne_nil]
      exact noEnd
    have atEnd : Text.splitFirst endMarker (body ++ endMarker ++ after) = some (body, after) :=
      (Text.splitFirst_eq_some_iff endMarker_ne_nil).2
        ⟨rfl, fun within => noEndInside (endMarker_infix_append_dropLast.1 within)⟩
    simp only [locate, atBegin, unspoiled, atEnd, Option.bind_eq_bind, Option.bind_some,
      Bool.false_eq_true, if_false, pure]

/-- The region of a text begins at an opening marker before which there is no other. -/
theorem before_of_locate {before rest : List Char} {region : Region}
    (present : locate (before ++ beginMarker ++ rest) = some region)
    (noBegin : ¬ beginMarker <:+: before) : region.before = before := by
  obtain ⟨whole, noEarlier, -⟩ := locate_eq_some_iff.1 present
  rw [← beginMarker_infix_append_dropLast] at noBegin noEarlier
  -- Both are cut off by the first opening marker.
  have here : Text.splitFirst beginMarker (before ++ beginMarker ++ rest) = some (before, rest) :=
    (Text.splitFirst_eq_some_iff beginMarker_ne_nil).2 ⟨rfl, noBegin⟩
  have there : Text.splitFirst beginMarker (before ++ beginMarker ++ rest) =
      some (region.before, region.body ++ endMarker ++ region.after) :=
    (Text.splitFirst_eq_some_iff beginMarker_ne_nil).2 ⟨by simp [whole], noEarlier⟩
  exact (Prod.mk.inj (Option.some.inj (there.symm.trans here))).1

/-- A text with an opening marker has a region if its first closing marker stands behind that. -/
theorem isSome_locate {before rest : List Char} (noEnd : ¬ endMarker <:+: before)
    (closed : endMarker <:+: rest) : (locate (before ++ beginMarker ++ rest)).isSome := by
  obtain ⟨front, behind, atBegin, ahead, later⟩ :=
    Text.splitFirst_of_occurrence beginMarker_ne_nil before rest
  -- The first opening marker may stand further ahead, which leaves more text behind it.
  have unspoiled : Text.contains endMarker front = false := by
    rw [← Bool.not_eq_true, Text.contains_iff endMarker_ne_nil]
    exact fun within => noEnd (within.trans ahead.isInfix)
  cases atEnd : Text.splitFirst endMarker behind with
  | none =>
    rw [Text.splitFirst_eq_none_iff endMarker_ne_nil] at atEnd
    exact absurd (closed.trans later.isInfix) atEnd
  | some cut =>
    simp only [locate, atBegin, unspoiled, atEnd, Option.bind_eq_bind, Option.bind_some,
      Bool.false_eq_true, if_false, pure, Option.isSome_some]

end NixKeeper.Managed
