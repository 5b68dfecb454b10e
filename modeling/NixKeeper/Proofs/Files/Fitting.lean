import NixKeeper.Proofs.Files.Lines
import NixKeeper.Proofs.Text.Blank

/-! Which generated lines fit into a region. -/

namespace NixKeeper.Files

/-- A text that stands on one line of a region and cannot be taken for its end. -/
structure FitsLine (text : List Char) : Prop where
  noLineFeed : '\n' ∉ text
  noMarker : ∀ marker ∈ [Managed.beginMarker, Managed.endMarker], ¬ marker <:+: text

/-- Every line fits into a region. -/
def AllFit (lines : List Line) : Prop :=
  ∀ line ∈ lines, FitsLine line.text

/-- A text in which neither a line nor a marker can end or begin. -/
def IsPlain (text : List Char) : Prop :=
  '#' ∉ text ∧ '\n' ∉ text

instance (text : List Char) : Decidable (IsPlain text) :=
  inferInstanceAs (Decidable (_ ∧ _))

/-- A plain text fits. -/
theorem IsPlain.fits {text : List Char} (plain : IsPlain text) : FitsLine text :=
  -- Every marker has a hash sign.
  ⟨plain.2, fun _ isMarker => not_infix_of_hash_not_mem isMarker plain.1⟩

/-- A plain text may stand before a text that fits. -/
theorem FitsLine.append {first second : List Char} (plain : IsPlain first)
    (fits : FitsLine second) : FitsLine (first ++ second) := by
  refine ⟨?_, fun marker isMarker within => fits.noMarker marker isMarker ?_⟩
  · rw [List.mem_append, not_or]
    exact ⟨plain.2, fits.noLineFeed⟩
  · obtain ⟨head, -, nonempty⟩ := ends_of_isMarker isMarker
    refine (Text.infix_append_iff_of_head_not_mem ?_ nonempty).1 within
    -- A marker begins with a hash sign, which the plain text lacks.
    rw [head]
    rintro c ⟨⟩
    exact plain.1

/-- A text without hyphens may stand behind a text that fits. -/
theorem FitsLine.append_ending {first second : List Char} (fits : FitsLine first)
    (noHyphen : '-' ∉ second) (noLineFeed : '\n' ∉ second) : FitsLine (first ++ second) := by
  refine ⟨?_, fun marker isMarker within => fits.noMarker marker isMarker ?_⟩
  · rw [List.mem_append, not_or]
    exact ⟨fits.noLineFeed, noLineFeed⟩
  · obtain ⟨-, last, nonempty⟩ := ends_of_isMarker isMarker
    refine (Text.infix_append_iff_of_last_not_mem ?_ nonempty).1 within
    -- A marker ends with a hyphen, which the ending lacks.
    rw [last]
    rintro c ⟨⟩
    exact noHyphen

/-- A part of a text that fits does so too. -/
theorem FitsLine.of_part {part text : List Char} (fits : FitsLine text) (within : part <:+: text) :
    FitsLine part :=
  -- What stands in the part stands in the whole text.
  ⟨fun lineFeed => fits.noLineFeed (within.subset lineFeed),
    fun marker isMarker inPart => fits.noMarker marker isMarker (inPart.trans within)⟩

/-- A quoted text fits if the text does. -/
theorem fitsLine_quote {text : List Char} (fits : FitsLine text) : FitsLine (Nix.quote text) := by
  constructor
  · -- Escaping adds backslashes, never a line feed.
    exact fun within => fits.noLineFeed (Nix.mem_of_mem_quote (by decide) (by decide) within)
  · intro marker isMarker within
    -- A marker has neither quotes nor backslashes, so it would stand in the text itself.
    obtain ⟨noQuote, noBackslash, -⟩ := plain_of_isMarker isMarker
    have nonempty := (ends_of_isMarker isMarker).2.2
    rw [← List.append_nil (Nix.quote text)] at within
    rcases Nix.infix_of_infix_quote_append noQuote noBackslash within with inText | nothing
    · exact fits.noMarker marker isMarker inText
    · exact nonempty (List.infix_nil.1 nothing)

/-- A written list fits if its texts do. -/
theorem fitsLine_formatList {items : List String}
    (fits : ∀ item ∈ items, FitsLine item.toList) : FitsLine (Nix.formatList items) := by
  constructor
  · -- What a list adds to its items are quotes, brackets and spaces.
    intro within
    obtain ⟨item, inItems, inItem⟩ := Nix.mem_of_mem_formatList (by decide) within
    exact (fits item inItems).noLineFeed inItem
  · intro marker isMarker within
    obtain ⟨noQuote, noBackslash, visible⟩ := plain_of_isMarker isMarker
    obtain ⟨item, inItems, inItem⟩ :=
      Nix.infix_of_infix_formatList noQuote noBackslash visible within
    exact (fits item inItems).noMarker marker isMarker inItem

/-- A text of characters that neither end a line nor begin a marker is plain. -/
theorem isPlain_of_forall {isMember : Char → Bool} {text : List Char}
    (noHash : isMember '#' = false) (noLineFeed : isMember '\n' = false)
    (members : ∀ c ∈ text, isMember c = true) : IsPlain text :=
  -- The two characters are outside the class, so the text has neither.
  ⟨Text.not_mem_of_class members noHash, Text.not_mem_of_class members noLineFeed⟩

/-- Joined lines fit if both parts do. -/
@[simp] theorem allFit_append {first second : List Line} :
    AllFit (first ++ second) ↔ AllFit first ∧ AllFit second :=
  -- The condition is one on each line.
  List.forall_mem_append

/-- The depth of lines does not matter for whether they fit. -/
@[simp] theorem allFit_indent {lines : List Line} : AllFit (indent lines) ↔ AllFit lines :=
  -- Indentation leaves the text of a line alone.
  List.forall_mem_map

/-- A single line fits if its text does. -/
@[simp] theorem allFit_line {text : List Char} : AllFit (line text) ↔ FitsLine text :=
  List.forall_mem_singleton

/-- An empty line fits. -/
@[simp] theorem allFit_blank : AllFit blank :=
  -- An empty line has no characters.
  allFit_line.2 (IsPlain.fits (by decide))

/-- The notice fits. -/
theorem allFit_notice : AllFit (line notice) := by
  refine allFit_line.2 ⟨by decide, fun marker isMarker => ?_⟩
  -- The notice has a hash sign, so the markers are looked for in it one by one.
  simp only [List.mem_cons, List.not_mem_nil, or_false] at isMarker
  rcases isMarker with rfl | rfl <;> decide +kernel

/-- A block fits if its first line, its body and its last line do. -/
@[simp] theorem allFit_block {opening closing : List Char} {body : List Line} :
    AllFit (block opening body closing) ↔ FitsLine opening ∧ AllFit body ∧ FitsLine closing := by
  simp [block]

/-- Lines written for several items fit if those for each item do. -/
@[simp] theorem allFit_flatMap {α : Type} {items : List α} {written : α → List Line} :
    AllFit (items.flatMap written) ↔ ∀ item ∈ items, AllFit (written item) :=
  List.forall_mem_flatMap

/-- An assignment fits if its path and its value do. -/
theorem allFit_assign_of_fits {path value : List Char} (pathFits : FitsLine path)
    (fits : FitsLine value) : AllFit (assign path value) := by
  have front : FitsLine (path ++ [' ']) := pathFits.append_ending (by decide) (by decide)
  have back : FitsLine ([' '] ++ (value ++ [';'])) :=
    FitsLine.append (by decide) (fits.append_ending (by decide) (by decide))
  -- The line is cut at its equals sign, and what is on either side fits.
  have shape : path ++ " = ".toList ++ value ++ [';'] =
      path ++ [' '] ++ '=' :: ([' '] ++ (value ++ [';'])) := by simp
  rw [assign, allFit_line, shape]
  refine ⟨?_, fun marker isMarker within => ?_⟩
  · rw [List.mem_append, List.mem_cons, not_or, not_or]
    exact ⟨front.noLineFeed, by decide, back.noLineFeed⟩
  · -- No marker has an equals sign.
    have free : '=' ∉ marker := by
      simp only [List.mem_cons, List.not_mem_nil, or_false] at isMarker
      rcases isMarker with rfl | rfl <;> decide
    rcases (Text.infix_append_cons_iff free).1 within with inFront | inBack
    · exact front.noMarker marker isMarker inFront
    · exact back.noMarker marker isMarker inBack

/-- An assignment to a plain path fits if its value does. -/
theorem allFit_assign {path value : List Char} (plain : IsPlain path) (fits : FitsLine value) :
    AllFit (assign path value) :=
  -- A plain path is only a special case.
  allFit_assign_of_fits plain.fits fits

/-- An assignment of a quoted text fits if the text does. -/
theorem allFit_assignText {path value : List Char} (plain : IsPlain path) (fits : FitsLine value) :
    AllFit (assignText path value) :=
  -- Quoting brings in neither a line feed nor a hash sign.
  allFit_assign plain (fitsLine_quote fits)

/-- Switching a path on fits if the path does. -/
theorem allFit_switchOn {path : List Char} (fits : FitsLine path) : AllFit (switchOn path) := by
  rw [switchOn, assign, allFit_line, List.append_assoc, List.append_assoc]
  -- No marker ends with the word that is assigned.
  exact fits.append_ending (by decide) (by decide)

/-- No closing marker stands in the text of lines that fit into a region. -/
theorem not_infix_render {lines : List Line} (fit : AllFit lines) :
    ¬ Managed.endMarker <:+: render lines := by
  have nonempty : Managed.endMarker ≠ [] := by decide
  have head : Managed.endMarker.head? = some '#' := by decide
  have noLineFeed : '\n' ∉ Managed.endMarker := Managed.lineFeed_not_mem_endMarker
  induction lines with
  | nil => exact fun within => nonempty (List.infix_nil.1 within)
  | cons first rest ih =>
    obtain ⟨fits, later⟩ := List.forall_mem_cons.1 fit
    -- The marker begins with a hash sign, which no indentation has.
    have hash : ∀ c ∈ Managed.endMarker.head?, c ∉ List.replicate (2 * first.depth) ' ' := by
      rw [head]
      rintro c ⟨⟩ within
      exact absurd (List.eq_of_mem_replicate within) (by decide)
    intro within
    rw [render_cons, Line.render] at within
    split at within
    · rw [List.singleton_append, Text.infix_cons_iff_of_not_mem noLineFeed] at within
      exact ih later within
    · rw [List.append_assoc, List.singleton_append, Text.infix_append_cons_iff noLineFeed,
        Text.infix_append_iff_of_head_not_mem hash nonempty] at within
      exact within.elim (fits.noMarker _ (by simp)) (ih later)

end NixKeeper.Files
