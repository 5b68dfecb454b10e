import NixKeeper.Files.Lines
import NixKeeper.Proofs.Managed.Region
import NixKeeper.Proofs.Nix.Literal

/-! Where the managed region lies in the text of generated lines. -/

namespace NixKeeper.Files

/-- The marker lines of a region and the lines between them, all marker lines at one depth. -/
def regionAt (depth : Nat) (inside : List Line) : List Line :=
  ⟨depth, Managed.beginMarker⟩ :: inside ++ [⟨depth, Managed.endMarker⟩]

/-- A managed region has the notice on its first line. -/
theorem region_eq (body : List Line) : region body = regionAt 0 (line notice ++ body) :=
  rfl

/-- A region that is indented stays a region. -/
@[simp] theorem indent_regionAt (depth : Nat) (inside : List Line) :
    indent (regionAt depth inside) = regionAt (depth + 1) (indent inside) := by
  -- The markers move along with the lines between them.
  simp [indent, regionAt]

/-- Lines are indented one by one. -/
@[simp] theorem indent_append (first second : List Line) :
    indent (first ++ second) = indent first ++ indent second :=
  -- Indentation works line by line.
  List.map_append

/-- Lines are written one after another. -/
@[simp] theorem render_append (first second : List Line) :
    render (first ++ second) = render first ++ render second :=
  List.flatMap_append

/-- The first line is written first. -/
@[simp] theorem render_cons (first : Line) (rest : List Line) :
    render (first :: rest) = first.render ++ render rest :=
  rfl

/-- A line that is not empty is written behind its indentation. -/
theorem Line.render_of_ne_nil {line : Line} (nonempty : line.text ≠ []) :
    line.render = List.replicate (2 * line.depth) ' ' ++ line.text ++ ['\n'] := by
  -- Only an empty line goes without its indentation.
  simp [Line.render, nonempty]

/-- The text of a region, with what stands on its marker lines before the markers. -/
theorem render_regionAt (depth : Nat) (inside : List Line) :
    render (regionAt depth inside) =
      List.replicate (2 * depth) ' ' ++ Managed.beginMarker ++
        ('\n' :: render inside ++ List.replicate (2 * depth) ' ') ++ Managed.endMarker ++ ['\n'] := by
  rw [regionAt, render_append, render_cons, Line.render_of_ne_nil Managed.beginMarker_ne_nil,
    render_cons, Line.render_of_ne_nil Managed.endMarker_ne_nil]
  -- Neither marker is an empty line, so both are indented.
  simp [render]

/-- Both markers begin with a hash sign and end with a hyphen. -/
theorem ends_of_isMarker {marker : List Char}
    (isMarker : marker ∈ [Managed.beginMarker, Managed.endMarker]) :
    marker.head? = some '#' ∧ marker.getLast? = some '-' ∧ marker ≠ [] := by
  simp only [List.mem_cons, List.not_mem_nil, or_false] at isMarker
  -- Both markers are closed texts.
  rcases isMarker with rfl | rfl <;> decide

/-- No marker can be quoted in a way that hides it. -/
theorem plain_of_isMarker {marker : List Char}
    (isMarker : marker ∈ [Managed.beginMarker, Managed.endMarker]) :
    '"' ∉ marker ∧ '\\' ∉ marker ∧ ¬ marker ⊆ "[ ]".toList := by
  -- A marker begins with a hash sign, which is none of the signs of a list.
  have hash : '#' ∈ marker := List.mem_of_mem_head? (ends_of_isMarker isMarker).1
  refine ⟨?_, ?_, fun covered => absurd (covered hash) (by decide)⟩
  all_goals
    simp only [List.mem_cons, List.not_mem_nil, or_false] at isMarker
    rcases isMarker with rfl | rfl <;> decide

/-- A text without a hash sign has no marker. -/
theorem not_infix_of_hash_not_mem {marker text : List Char}
    (isMarker : marker ∈ [Managed.beginMarker, Managed.endMarker]) (noHash : '#' ∉ text) :
    ¬ marker <:+: text :=
  -- A marker brings its own hash sign with it.
  fun within => noHash (within.subset (List.mem_of_mem_head? (ends_of_isMarker isMarker).1))

/-- A marker that stands in a text with an indentation behind it stands in the text. -/
theorem infix_of_infix_append_replicate {marker text : List Char} (depth : Nat)
    (isMarker : marker ∈ [Managed.beginMarker, Managed.endMarker])
    (within : marker <:+: text ++ List.replicate (2 * depth) ' ') : marker <:+: text := by
  obtain ⟨-, last, nonempty⟩ := ends_of_isMarker isMarker
  -- A marker does not end with a space, so the spaces add none.
  refine (Text.infix_append_iff_of_last_not_mem ?_ nonempty).1 within
  rw [last]
  simp

/-- The region of generated lines is found where it was put, if no marker stands elsewhere. -/
theorem locate_render {before inside : List Line} (after : List Line) (depth : Nat)
    (noBegin : ¬ Managed.beginMarker <:+: render before)
    (noEnd : ¬ Managed.endMarker <:+: render before)
    (noEndInside : ¬ Managed.endMarker <:+: render inside) :
    Managed.locate (render (before ++ regionAt depth inside ++ after)) =
      some ⟨render before ++ List.replicate (2 * depth) ' ',
        '\n' :: render inside ++ List.replicate (2 * depth) ' ', '\n' :: render after⟩ := by
  -- No marker can begin in the indentation, so each must stand in one of the parts.
  refine Managed.locate_eq_some_iff.2 ⟨?_, fun within => noBegin ?_, fun within => noEnd ?_,
    fun within => noEndInside ?_⟩
  · simp [render_regionAt]
  · exact infix_of_infix_append_replicate depth (by simp) within
  · exact infix_of_infix_append_replicate depth (by simp) within
  · rw [List.cons_append, Text.infix_cons_iff_of_not_mem Managed.lineFeed_not_mem_endMarker] at within
    exact infix_of_infix_append_replicate depth (by simp) within

/-- The text of generated lines around the opening marker of their region. -/
theorem render_around (before inside after : List Line) (depth : Nat) :
    render (before ++ regionAt depth inside ++ after) =
      (render before ++ List.replicate (2 * depth) ' ') ++ Managed.beginMarker ++
        (('\n' :: render inside ++ List.replicate (2 * depth) ' ') ++ Managed.endMarker ++
          '\n' :: render after) := by
  -- The line feed behind the closing marker belongs to its line.
  simp [render_regionAt]

/-- Generated lines with a region have one in their text if no closing marker stands before it. -/
theorem isSome_locate_render {before : List Line} (inside after : List Line) (depth : Nat)
    (noEnd : ¬ Managed.endMarker <:+: render before) :
    (Managed.locate (render (before ++ regionAt depth inside ++ after))).isSome := by
  rw [render_around]
  -- An end marker in front of the opening one would be taken for the region's own.
  refine Managed.isSome_locate (fun within => noEnd ?_) (List.infix_append _ _ _)
  exact infix_of_infix_append_replicate depth (by simp) within

end NixKeeper.Files
