import NixKeeper.Proofs.Files.Mentions
import NixKeeper.Proofs.Managed.Block

/-!
The braces of generated lines: literals and lines over which the search for the end of a block passes.

Every block of lines is opened and closed in step, whatever stands between quotes in it.
-/

namespace NixKeeper.Files

open Managed (Stand Leads IsBare isIdle endsEscaped endsEscaped_cons byteLength extractBlock)

/-- Between quotes a written text is passed over, whatever braces and quotes stand in it. -/
theorem behind?_escape (depth : Nat) (escaped : Bool) (text : List Char) :
    Stand.behind? ⟨depth, true, escaped⟩ (Nix.escape text) =
      some ⟨depth, true, endsEscaped escaped text⟩ := by
  -- Every quote of the text has a backslash before it, so the search never leaves the quotes.
  induction text generalizing escaped with
  | nil => rfl
  | cons c rest ih =>
    rw [endsEscaped_cons]
    by_cases quote : c = '"'
    · subst quote
      rw [Nix.escape_quote_cons]
      -- The backslash protects the quote, and the quote protects nothing.
      exact ih false
    · rw [Nix.escape_cons_of_ne quote]
      have steps : Stand.step? ⟨depth, true, escaped⟩ c = some ⟨depth, true, c == '\\'⟩ := by
        simp [Stand.step?, quote]
      rw [Stand.behind?, steps, Option.bind_some, ih]

/-- A text between quotes leads nowhere else if no backslash of its own protects the closing quote. -/
theorem leads_quote {text : List Char} (noBackslash : '\\' ∉ text) (depth : Nat) :
    Leads depth depth (Nix.quote text) := by
  -- The text does not end with a backslash, so the closing quote counts.
  have ending : endsEscaped false text = false := by
    rw [endsEscaped]
    cases last : text.getLast? with
    | none => rfl
    | some c =>
      have other : c ≠ '\\' := fun same => noBackslash (same ▸ List.mem_of_getLast? last)
      simpa using other
  refine ⟨false, ?_⟩
  have opens : Stand.step? ⟨depth, false, false⟩ '"' = some ⟨depth, true, false⟩ := rfl
  have closes : Stand.step? ⟨depth, true, false⟩ '"' = some ⟨depth, false, false⟩ := rfl
  rw [Nix.quote, List.cons_append, Stand.behind?, opens, Option.bind_some, Stand.behind?_append,
    behind?_escape, ending, Option.bind_some, Stand.behind?, closes]
  rfl

/-- Quoted texts with spaces between them lead nowhere else. -/
theorem leads_join_quote {items : List String} (noBackslash : ∀ item ∈ items, '\\' ∉ item.toList)
    (depth : Nat) :
    Leads depth depth (Text.join [' '] (items.map fun item => Nix.quote item.toList)) := by
  -- The space behind a text keeps the quotes of two texts apart.
  induction items with
  | nil => exact ⟨false, rfl⟩
  | cons item rest ih =>
    obtain ⟨own, later⟩ := List.forall_mem_cons.1 noBackslash
    have first := leads_quote own depth
    cases rest with
    | nil => simpa [Text.join] using first
    | cons next rest =>
      have shape : Text.join [' '] ((item :: next :: rest).map fun item => Nix.quote item.toList) =
          Nix.quote item.toList ++
            ' ' :: Text.join [' '] ((next :: rest).map fun item => Nix.quote item.toList) := by
        simp [Text.join]
      rw [shape]
      exact first.append_cons rfl (ih later)

/-- A written list leads nowhere else. -/
theorem leads_formatList {items : List String} (noBackslash : ∀ item ∈ items, '\\' ∉ item.toList)
    (depth : Nat) : Leads depth depth (Nix.formatList items) := by
  rw [Nix.formatList]
  split
  · exact IsBare.leads (by decide) depth
  · -- The items stand between two brackets, each behind a space.
    have shape : "[ ".toList ++ Text.join [' '] (items.map fun item => Nix.quote item.toList) ++
        " ]".toList = ['['] ++ ' ' :: (Text.join [' '] (items.map fun item => Nix.quote item.toList) ++
          ' ' :: [']']) := by simp
    rw [shape]
    have bracket {text : List Char} (bare : IsBare text) : Leads depth depth text := bare.leads depth
    apply (bracket (by decide)).append_cons rfl
    exact (leads_join_quote noBackslash depth).append_cons rfl (bracket (by decide))

/-- A word of characters of a path has neither quotes nor braces. -/
theorem isBare_of_onPath {word : List Char} (onPath : ∀ c ∈ word, Text.isPathChar c = true) :
    IsBare word :=
  -- Braces, quotes and backslashes are no characters of paths.
  ⟨Text.not_mem_of_class onPath rfl, Text.not_mem_of_class onPath rfl,
    Text.not_mem_of_class onPath rfl⟩

/-- A written literal leads nowhere else. -/
theorem leads_format {literal : Literal} (noBackslash : ∀ text ∈ literalTexts literal, '\\' ∉ text.toList)
    (depth : Nat) : Leads depth depth (Nix.format literal) := by
  -- Switches and numbers are bare, and all other texts stand between quotes.
  cases literal with
  | bool value =>
    have bare : IsBare (Nix.format (.bool value)) := by cases value <;> decide
    exact bare.leads depth
  | int value => exact (isBare_of_onPath fun c => Decimal.isPathChar_of_mem_ofInt).leads depth
  | float value =>
    exact (isBare_of_onPath fun c => Binary64.isPathChar_of_mem_render_plain).leads depth
  | list items => exact leads_formatList noBackslash depth
  | text value => exact leads_quote (noBackslash value (List.mem_singleton_self value)) depth

/-- Lines with whole blocks only, each opened and closed by lines of its own. -/
inductive IsLevel : List Line → Prop where
  | nil : IsLevel []
  | line {depth : Nat} {text : List Char} {rest : List Line} (leads : Leads 0 0 text)
      (later : IsLevel rest) : IsLevel (⟨depth, text⟩ :: rest)
  | block {depth : Nat} {opening closing : List Char} {inside rest : List Line}
      (opens : Leads 0 1 opening) (isLevel : IsLevel inside) (closes : Leads 1 0 closing)
      (later : IsLevel rest) : IsLevel (⟨depth, opening⟩ :: inside ++ ⟨depth, closing⟩ :: rest)

namespace IsLevel

variable {first second lines : List Line}

/-- Joined lines have whole blocks only if both parts do. -/
theorem append (isFirst : IsLevel first) (isSecond : IsLevel second) : IsLevel (first ++ second) := by
  -- Block by block of the first part; the second one stands behind the last of them.
  induction isFirst with
  | nil => exact isSecond
  | line leads _ ih => exact .line leads ih
  | block opens inside closes _ _ ih =>
    rw [List.append_assoc, List.cons_append]
    exact .block opens inside closes ih

/-- Indentation changes nothing about blocks. -/
theorem indent (isLevel : IsLevel lines) : IsLevel (indent lines) := by
  -- The indentation belongs to no text of a line, so the blocks are the same.
  induction isLevel with
  | nil => exact .nil
  | line leads _ ih => exact .line leads ih
  | block opens _ closes _ ihInside ih =>
    rw [indent_append]
    exact .block opens ihInside closes ih

/-- Lines written for several items have whole blocks if those for each item do. -/
theorem flatMap {α : Type} {items : List α} {written : α → List Line}
    (each : ∀ item ∈ items, IsLevel (written item)) : IsLevel (items.flatMap written) := by
  induction items with
  | nil => exact .nil
  | cons item rest ih =>
    obtain ⟨own, later⟩ := List.forall_mem_cons.1 each
    -- Stretches that keep the level do so one behind another.
    rw [List.flatMap_cons]
    exact own.append (ih later)

end IsLevel

/-- A single line has no block if its text leads nowhere else. -/
theorem isLevel_line {text : List Char} (leads : Leads 0 0 text) : IsLevel (line text) :=
  -- A block of a single line ends where it began.
  .line leads .nil

/-- An empty line has no block. -/
theorem isLevel_blank : IsLevel blank :=
  -- The line is empty.
  isLevel_line (by decide)

/-- A block of lines is whole if its first line opens it and its last line closes it. -/
theorem isLevel_block {opening closing : List Char} {body : List Line} (opens : Leads 0 1 opening)
    (isLevel : IsLevel body) (closes : Leads 1 0 closing) : IsLevel (block opening body closing) :=
  -- The opening goes one level down, and the closing line comes back up.
  .block opens isLevel.indent closes .nil

/-- An assignment has no block if neither its path nor its value leads anywhere else. -/
theorem isLevel_assign {path value : List Char} (bare : IsBare path) (leads : Leads 0 0 value) :
    IsLevel (assign path value) := by
  -- The spaces around the equals sign and the semicolon are idle characters.
  have shape : path ++ " = ".toList ++ value ++ [';'] =
      path ++ ' ' :: (['='] ++ ' ' :: (value ++ ';' :: [])) := by simp
  rw [assign, shape]
  apply isLevel_line
  apply (bare.leads 0).append_cons rfl
  have equals : Leads 0 0 ['='] := by decide
  exact equals.append_cons rfl (leads.append_cons rfl (by decide))

/-- An assignment of a quoted text has no block. -/
theorem isLevel_assignText {path value : List Char} (bare : IsBare path) (noBackslash : '\\' ∉ value) :
    IsLevel (assignText path value) :=
  -- Whatever stands between the quotes does not count.
  isLevel_assign bare (leads_quote noBackslash 0)

/-- The line that switches a path on has no block. -/
theorem isLevel_switchOn {path : List Char} (bare : IsBare path) : IsLevel (switchOn path) :=
  -- The word after the equals sign has no braces.
  isLevel_assign bare (by decide)

/-- The markers and the notice of a region belong to no block. -/
theorem isLevel_region {body : List Line} (isLevel : IsLevel body) : IsLevel (region body) := by
  -- Each of the three lines is free of quotes and braces.
  have markers : IsLevel (line Managed.beginMarker) ∧ IsLevel (line notice) ∧
      IsLevel (line Managed.endMarker) :=
    ⟨isLevel_line (IsBare.leads (by decide) 0), isLevel_line (IsBare.leads (by decide) 0),
      isLevel_line (IsBare.leads (by decide) 0)⟩
  exact ((markers.1.append markers.2.1).append isLevel).append markers.2.2

/-- A line leads where its text does, and no backslash stands behind it. -/
theorem behind?_render_line {before after : Nat} {text : List Char} (leads : Leads before after text)
    (depth : Nat) :
    Stand.behind? ⟨before, false, false⟩ (Line.render ⟨depth, text⟩) =
      some ⟨after, false, false⟩ := by
  obtain ⟨escaped, reached⟩ := leads
  have lineFeed : Stand.step? ⟨after, false, escaped⟩ '\n' = some ⟨after, false, false⟩ := by
    simp [Stand.step?]
  have spaces : ∀ count, Stand.behind? ⟨before, false, false⟩ (List.replicate count ' ') =
      some ⟨before, false, false⟩ := by
    intro count
    induction count with
    | zero => rfl
    | succ count ih =>
      have space : Stand.step? ⟨before, false, false⟩ ' ' = some ⟨before, false, false⟩ := by
        simp [Stand.step?]
      rw [List.replicate_succ, Stand.behind?, space, Option.bind_some, ih]
  by_cases empty : text = []
  · -- An empty line is written without its indentation.
    subst empty
    cases reached
    rw [Line.render, List.isEmpty_nil, if_pos rfl, Stand.behind?, lineFeed]
    rfl
  · -- The indentation and the line feed lead nowhere, so only the text counts.
    rw [Line.render_of_ne_nil empty, Stand.behind?_append, Stand.behind?_append, spaces,
      Option.bind_some, reached, Option.bind_some, Stand.behind?, lineFeed]
    rfl

/-- The search for the end of a block passes over lines with whole blocks only. -/
theorem IsLevel.behind?_render {lines : List Line} (isLevel : IsLevel lines) (depth : Nat) :
    Stand.behind? ⟨depth, false, false⟩ (render lines) = some ⟨depth, false, false⟩ := by
  -- A block is passed over at the next depth, from which its last line leads back.
  induction isLevel generalizing depth with
  | nil => rfl
  | line leads _ ih =>
    have single := leads.deeper depth
    rw [Nat.zero_add] at single
    rw [render_cons, Stand.behind?_append, behind?_render_line single, Option.bind_some, ih]
  | block opens _ closes _ ihInside ih =>
    have opening := opens.deeper depth
    have closing := closes.deeper depth
    rw [Nat.zero_add] at opening closing
    rw [List.cons_append, render_cons, render_append, render_cons, Stand.behind?_append,
      behind?_render_line opening, Option.bind_some, Stand.behind?_append, ihInside,
      Option.bind_some, Stand.behind?_append, behind?_render_line closing, Option.bind_some, ih]

/-- Behind lines with whole blocks only, the next closing brace closes the block that they stand in. -/
theorem IsLevel.splitBlock_render {lines : List Line} (isLevel : IsLevel lines) (after : List Char) :
    Managed.splitBlock 0 false false (render lines ++ '}' :: after) = some (render lines, after) :=
  Stand.split_eq_some_iff.2 ⟨rfl, _, isLevel.behind?_render 0, rfl⟩

end NixKeeper.Files
