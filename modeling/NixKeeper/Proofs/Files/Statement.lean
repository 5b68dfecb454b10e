import NixKeeper.Files.Statement
import NixKeeper.Proofs.Files.Fitting
import NixKeeper.Proofs.Text.Blank

/-! The statements of generated lines: which lines hold one, and what it assigns. -/

namespace NixKeeper.Files

/-- The statement on a line, if there is one. -/
def statement? (text : List Char) : Option Statement :=
  -- The semicolon is no part of the statement, and a line that says nothing gives none.
  let raw := Text.trim text
  if isStatement raw then some ⟨raw, Text.trimEnd (dropSemicolon raw)⟩ else none

/-- The statements of a region are those of its lines. -/
theorem statements_of_locate {text : List Char} {region : Managed.Region}
    (found : Managed.locate text = some region) :
    statements text = (Text.lines region.body).filterMap statement? := by
  rw [statements, found]
  dsimp only
  -- A line is trimmed and filtered as one step or as two.
  induction Text.lines region.body with
  | nil => rfl
  | cons text rest ih =>
    rw [List.filterMap_cons, statement?, List.map_cons, List.filter_cons]
    split
    · rw [List.map_cons, ih]
    · exact ih

/-- The statements on generated lines. -/
def said (lines : List Line) : List Statement :=
  lines.filterMap fun line => statement? line.text

/-- The first line is said first. -/
theorem said_cons (first : Line) (rest : List Line) :
    said (first :: rest) = (statement? first.text).toList ++ said rest := by
  rw [said, List.filterMap_cons]
  -- A line gives one statement or none.
  cases statement? first.text <;> rfl

/-- Lines say one after another what they say. -/
@[simp] theorem said_append (first second : List Line) :
    said (first ++ second) = said first ++ said second :=
  -- The statements are collected line by line.
  List.filterMap_append

/-- The depth of lines says nothing. -/
@[simp] theorem said_indent (lines : List Line) : said (indent lines) = said lines := by
  -- Indentation is trimmed off before a line is read.
  rw [said, indent, List.filterMap_map]
  rfl

/-- A single line says what its statement says. -/
@[simp] theorem said_line (text : List Char) : said (line text) = (statement? text).toList := by
  -- There is only the one line.
  rw [line, said_cons]
  exact List.append_nil _

/-- The notice is a comment, which says nothing. -/
theorem said_notice : said (line notice) = [] :=
  -- The notice is a comment.
  rfl

/-- An indented line says what it says without the indentation. -/
theorem statement?_indented (depth : Nat) (text : List Char) :
    statement? (List.replicate depth ' ' ++ text) = statement? text := by
  -- Spaces are blanks, which are trimmed first of all.
  have same : Text.trim (List.replicate depth ' ' ++ text) = Text.trim text := by
    have blank : ∀ c ∈ List.replicate depth ' ', Text.isBlank c = true := fun c within => by
      rw [List.eq_of_mem_replicate within]
      rfl
    rw [Text.trim, Text.trimStart, List.dropWhile_append_of_pos blank, Text.trim, Text.trimStart]
  rw [statement?, same, statement?]

/-- The lines of a text are those of its parts if a line feed stands between the parts. -/
theorem lines_append_cons (first rest : List Char) (noLineFeed : '\n' ∉ first) :
    Text.lines (first ++ '\n' :: rest) = first :: Text.lines rest :=
  -- The first part has no line feed, so the one behind it ends the first line.
  List.splitOn_append_cons_self_of_not_mem noLineFeed rest

/-- Generated lines are found in their text, and what stands behind them is another line. -/
theorem statements_lines_render {lines : List Line} (ending : List Char) (fit : AllFit lines) :
    (Text.lines (render lines ++ ending)).filterMap statement? =
      said lines ++ (Text.lines ending).filterMap statement? := by
  -- One line after another is cut off at its line feed; what it says does not depend on its depth.
  induction lines with
  | nil => rfl
  | cons first rest ih =>
    obtain ⟨fits, later⟩ := List.forall_mem_cons.1 fit
    have shape : render (first :: rest) ++ ending =
        (if first.text.isEmpty then [] else List.replicate (2 * first.depth) ' ' ++ first.text) ++
          '\n' :: (render rest ++ ending) := by
      rw [render_cons, Line.render]
      split <;> simp
    have oneLine : '\n' ∉ (if first.text.isEmpty then []
        else List.replicate (2 * first.depth) ' ' ++ first.text) := by
      split
      · simp
      · rw [List.mem_append, not_or]
        exact ⟨fun within => by simpa using List.eq_of_mem_replicate within, fits.noLineFeed⟩
    -- An indentation does not change what a line says, and an empty line says nothing.
    have same : statement? (if first.text.isEmpty then []
        else List.replicate (2 * first.depth) ' ' ++ first.text) = statement? first.text := by
      split
      · rename_i empty
        rw [List.isEmpty_iff.1 empty]
      · exact statement?_indented _ _
    rw [shape, lines_append_cons _ _ oneLine, List.filterMap_cons, same, ih later, said_cons]
    cases statement? first.text <;> rfl

/-- The statements of a generated text are those of the lines inside its region. -/
theorem statements_render {before inside : List Line} (after : List Line) (depth : Nat)
    (noMarker : ∀ marker ∈ [Managed.beginMarker, Managed.endMarker], ¬ marker <:+: render before)
    (fit : AllFit inside) :
    statements (render (before ++ regionAt depth inside ++ after)) = said inside := by
  have region := locate_render after depth (noMarker _ (by simp)) (noMarker _ (by simp))
    (not_infix_render fit)
  -- The indentation before the closing marker is a line of its own, and an empty one.
  have ending : (Text.lines (List.replicate (2 * depth) ' ')).filterMap statement? = [] := by
    have oneLine : '\n' ∉ List.replicate (2 * depth) ' ' := fun within => by
      simpa using List.eq_of_mem_replicate within
    have empty := statement?_indented (2 * depth) []
    rw [List.append_nil] at empty
    rw [Text.lines, List.splitOn_eq_singleton oneLine, List.filterMap_cons, empty]
    rfl
  have opening := lines_append_cons [] (render inside ++ List.replicate (2 * depth) ' ') (by simp)
  rw [statements_of_locate region]
  dsimp only
  rw [List.cons_append, ← List.nil_append ('\n' :: _), opening, List.filterMap_cons,
    statements_lines_render _ fit, ending, List.append_nil]
  rfl

end NixKeeper.Files
