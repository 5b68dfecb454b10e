import NixKeeper.Proofs.Decimal.Shortest
import NixKeeper.Proofs.Files.Lines
import NixKeeper.Proofs.Managed.Definitions

/-! The users that generated lines mention, literal by literal and line by line. -/

namespace NixKeeper.Files

open Managed (mentions mentions_append_cons mentions_append_equals mentions_eq_nil
  mentions_append_of_equals_not_mem mentions_append_of_beginsNothing)

/-- Escaping a text does not change which users it mentions. -/
theorem mentions_escape (text : List Char) : mentions (Nix.escape text) = mentions text := by
  -- A quote belongs to no definition, and neither does the backslash before it.
  induction size : text.length using Nat.strongRecOn generalizing text with
  | ind size ih =>
    subst size
    by_cases quoted : '"' ∈ text
    · -- The text is cut at its first quote, and what stands behind that is shorter.
      obtain ⟨before, after, rfl, free⟩ := List.eq_append_cons_of_mem quoted
      have shorter : after.length < (before ++ '"' :: after).length := by
        rw [List.length_append, List.length_cons]
        omega
      have later := ih after.length shorter after rfl
      have escaped : Nix.escape (before ++ '"' :: after) =
          before ++ '\\' :: ([] ++ '"' :: Nix.escape after) := by
        rw [Nix.escape, List.flatMap_append]
        exact congrArg (· ++ _) (Nix.escape_of_not_mem free)
      rw [escaped, mentions_append_cons _ _ rfl (by decide), mentions_append_cons _ _ rfl (by decide),
        mentions_append_cons _ _ rfl (by decide), later]
      rfl
    · rw [Nix.escape_of_not_mem quoted]

/-- A quoted text mentions the users that it mentions without quotes. -/
theorem mentions_quote_append (text rest : List Char) :
    mentions (Nix.quote text ++ rest) = mentions text ++ mentions rest := by
  -- Neither of the two quotes belongs to a definition.
  have shape : Nix.quote text ++ rest = [] ++ '"' :: (Nix.escape text ++ '"' :: rest) := by
    simp [Nix.quote]
  rw [shape, mentions_append_cons _ _ rfl (by decide), mentions_append_cons _ _ rfl (by decide),
    mentions_escape]
  rfl

/-- A quoted text mentions what it mentions without quotes. -/
theorem mentions_quote (text : List Char) : mentions (Nix.quote text) = mentions text := by
  -- Nothing behind the quoted text is the special case to be read off.
  have single := mentions_quote_append text []
  rwa [List.append_nil, mentions_eq_nil List.not_mem_nil, List.append_nil] at single

/-- Quoted texts with spaces between them mention one after another what each mentions. -/
theorem mentions_join_quote_append (items : List String) (rest : List Char) :
    mentions (Text.join [' '] (items.map fun item => Nix.quote item.toList) ++ rest) =
      (items.flatMap fun item => mentions item.toList) ++ mentions rest := by
  induction items with
  | nil => rfl
  | cons item others ih =>
    -- The last item has no space behind it.
    cases others with
    | nil =>
      have shape : Text.join [' '] ([item].map fun item => Nix.quote item.toList) =
          Nix.quote item.toList := by
        simp [Text.join]
      rw [shape, mentions_quote_append]
      simp
    | cons other others =>
      have shape : Text.join [' '] ((item :: other :: others).map fun item => Nix.quote item.toList) =
          Nix.quote item.toList ++
            ([' '] ++ Text.join [' '] ((other :: others).map fun item => Nix.quote item.toList)) := by
        simp [Text.join]
      rw [shape, List.append_assoc, List.append_assoc, mentions_quote_append,
        mentions_append_of_beginsNothing (by decide), ih, @List.flatMap_cons _ _ item, List.append_assoc]

/-- A list mentions the users that its texts mention. -/
theorem mentions_formatList (items : List String) :
    mentions (Nix.formatList items) = items.flatMap fun item => mentions item.toList := by
  rw [Nix.formatList]
  split
  · rename_i empty
    rw [List.isEmpty_iff.1 empty]
    rfl
  · -- In the brackets nothing is defined but what the quoted items define.
    rw [List.append_assoc, mentions_append_of_beginsNothing (by decide), mentions_join_quote_append]
    exact List.append_nil _

/-- The texts of a literal. -/
def literalTexts : Literal → List String
  -- Truth values and numbers have no quotes.
  | .list items => items
  | .text value => [value]
  | .bool _ | .int _ | .float _ => []

/-- A literal mentions the users that its texts mention. -/
theorem mentions_format (literal : Literal) :
    mentions (Nix.format literal) = (literalTexts literal).flatMap fun text => mentions text.toList := by
  -- A value that is no text holds no equals sign.
  have plain {word : List Char} (onPath : ∀ c ∈ word, Text.isPathChar c = true) :
      mentions word = [] :=
    mentions_eq_nil (Text.not_mem_of_class onPath rfl)
  cases literal with
  | bool value => cases value <;> rfl
  | int value => exact plain fun c => Decimal.isPathChar_of_mem_ofInt
  | float value => exact plain fun c => Binary64.isPathChar_of_mem_render_plain
  | list items => exact mentions_formatList items
  | text value =>
    rw [literalTexts, List.flatMap_singleton]
    exact mentions_quote value.toList

/-- A line that is empty or ends with a character behind which no definition goes on. -/
def isClosed (text : List Char) : Bool :=
  text.getLast?.all fun c => !Managed.isDefinitionChar c && c != '='

/-- The users that lines mention, one line after another. -/
def mentioned (lines : List Line) : List String :=
  lines.flatMap fun line => mentions line.text

/-- Lines that mention some users, whatever follows them. -/
def Mentions (lines : List Line) (names : List String) : Prop :=
  ∀ rest, mentions (render lines ++ rest) = names ++ mentions rest

/-- Joined lines mention what each part of them mentions. -/
theorem Mentions.append {first second : List Line} {names others : List String}
    (mentionsFirst : Mentions first names) (mentionsSecond : Mentions second others) :
    Mentions (first ++ second) (names ++ others) := by
  -- The names of the first part are found first, whatever follows it.
  intro rest
  rw [render_append, List.append_assoc, mentionsFirst, mentionsSecond, List.append_assoc]

/-- A closed line mentions what it mentions by itself. -/
theorem mentions_line {line : Line} (closed : isClosed line.text = true) :
    Mentions [line] (mentions line.text) := by
  intro rest
  have indentation : Managed.BeginsNothing (List.replicate (2 * line.depth) ' ') = true :=
    Managed.beginsNothing_of_not_mem fun within => by simp at within
  have lineFeed : mentions ('\n' :: rest) = mentions rest :=
    @mentions_append_of_beginsNothing ['\n'] (by decide) rest
  rw [render_cons, Line.render]
  rcases List.eq_nil_or_concat line.text with empty | ⟨front, last, ending⟩
  · rw [empty]
    exact lineFeed
  · -- The last character of the line belongs to no definition, so none goes on behind it.
    rw [List.concat_eq_append] at ending
    rw [isClosed, ending, List.getLast?_concat, Option.all_some, Bool.and_eq_true, Bool.not_eq_true',
      bne_iff_ne] at closed
    obtain ⟨other, noEquals⟩ := closed
    have nonempty : line.text.isEmpty = false := by simp [ending]
    have shape : List.replicate (2 * line.depth) ' ' ++ (front ++ [last]) ++ ['\n'] ++ render [] ++ rest =
        List.replicate (2 * line.depth) ' ' ++ (front ++ last :: '\n' :: rest) := by
      simp [render]
    rw [nonempty, ending, if_neg Bool.false_ne_true, shape,
      mentions_append_of_beginsNothing indentation, mentions_append_cons _ _ other noEquals,
      mentions_append_cons _ _ other noEquals, lineFeed, mentions_eq_nil List.not_mem_nil,
      List.append_nil]

/-- Closed lines mention one after another what each mentions. -/
theorem mentions_of_closed {lines : List Line} (closed : ∀ line ∈ lines, isClosed line.text = true) :
    Mentions lines (mentioned lines) := by
  -- A closed line ends no name that the next one could continue.
  induction lines with
  | nil => exact fun rest => rfl
  | cons first rest ih =>
    obtain ⟨here, later⟩ := List.forall_mem_cons.1 closed
    exact (mentions_line here).append (ih later)

/-- Every line is closed. -/
def AllClosed (lines : List Line) : Prop :=
  ∀ line ∈ lines, isClosed line.text = true

/-- Joined lines are closed if both parts are. -/
@[simp] theorem allClosed_append {first second : List Line} :
    AllClosed (first ++ second) ↔ AllClosed first ∧ AllClosed second :=
  -- The condition is one on each line.
  List.forall_mem_append

/-- The depth of lines does not matter for whether they are closed. -/
@[simp] theorem allClosed_indent {lines : List Line} : AllClosed (indent lines) ↔ AllClosed lines :=
  -- Indentation leaves the text of a line alone.
  List.forall_mem_map

/-- A single line is closed if its text is. -/
@[simp] theorem allClosed_line {text : List Char} : AllClosed (line text) ↔ isClosed text :=
  -- There is only the one line.
  List.forall_mem_singleton

/-- An empty line is closed. -/
@[simp] theorem allClosed_blank : AllClosed blank :=
  -- An empty line has no last character.
  allClosed_line.2 rfl

/-- A block is closed if its first line, its body and its last line are. -/
@[simp] theorem allClosed_block {opening closing : List Char} {body : List Line} :
    AllClosed (block opening body closing) ↔ isClosed opening ∧ AllClosed body ∧ isClosed closing := by
  -- A block is its opening, the indented body and its closing.
  simp [block]

/-- Lines written for several items are closed if those for each item are. -/
@[simp] theorem allClosed_flatMap {α : Type} {items : List α} {written : α → List Line} :
    AllClosed (items.flatMap written) ↔ ∀ item ∈ items, AllClosed (written item) :=
  -- Every line comes from one of the items.
  List.forall_mem_flatMap

/-- A text is closed by a character that belongs to no definition. -/
theorem isClosed_append_singleton (front : List Char) {c : Char}
    (other : Managed.isDefinitionChar c = false) (noEquals : c ≠ '=') : isClosed (front ++ [c]) := by
  -- Only the last character is asked about.
  rw [isClosed, List.getLast?_concat, Option.all_some, other, Bool.not_false, Bool.true_and]
  exact bne_iff_ne.2 noEquals

/-- An assignment is closed by its semicolon. -/
@[simp] theorem allClosed_assign (path value : List Char) : AllClosed (assign path value) :=
  -- An assignment ends with a semicolon.
  allClosed_line.2 (isClosed_append_singleton _ rfl (by decide))

/-- An assignment of a quoted text is closed. -/
@[simp] theorem allClosed_assignText (path value : List Char) : AllClosed (assignText path value) :=
  -- Quoting changes the value, and not the semicolon behind it.
  allClosed_assign _ _

/-- The line that switches a path on is closed. -/
@[simp] theorem allClosed_switchOn (path : List Char) : AllClosed (switchOn path) :=
  -- Switching on assigns a value like any other.
  allClosed_assign _ _

/-- Joined lines mention one after another what each part mentions. -/
@[simp] theorem mentioned_append (first second : List Line) :
    mentioned (first ++ second) = mentioned first ++ mentioned second :=
  -- The names are collected line by line.
  List.flatMap_append

/-- The depth of lines does not matter for what they mention. -/
@[simp] theorem mentioned_indent (lines : List Line) : mentioned (indent lines) = mentioned lines :=
  -- Indentation leaves the text of a line alone.
  List.flatMap_map _ _ lines

/-- A single line mentions what its text does. -/
@[simp] theorem mentioned_line (text : List Char) : mentioned (line text) = mentions text :=
  -- There is only the one line.
  List.flatMap_singleton _ _

/-- An empty line mentions nobody. -/
@[simp] theorem mentioned_blank : mentioned blank = [] :=
  -- An empty line names no one.
  rfl

/-- A block mentions what its first line, its body and its last line do. -/
@[simp] theorem mentioned_block (opening closing : List Char) (body : List Line) :
    mentioned (block opening body closing) = mentions opening ++ mentioned body ++ mentions closing := by
  -- A block is its opening, the indented body and its closing.
  simp [block]

/-- Lines written for several items mention what those for each item do. -/
@[simp] theorem mentioned_flatMap {α : Type} (items : List α) (written : α → List Line) :
    mentioned (items.flatMap written) = items.flatMap fun item => mentioned (written item) :=
  -- The two collections are one after another.
  List.flatMap_assoc

/-- An assignment mentions what its path does, up to the equals sign, and then what its value does. -/
@[simp] theorem mentioned_assign (path value : List Char) :
    mentioned (assign path value) = mentions (path ++ " =".toList) ++ mentions value := by
  -- A definition can end with the equals sign, or begin behind it.
  have shape : path ++ " = ".toList ++ value ++ [';'] =
      path ++ [' '] ++ '=' :: ([' '] ++ (value ++ ';' :: [])) := by simp
  have equals : path ++ [' '] ++ ['='] = path ++ " =".toList := by simp
  have space : mentions ([' '] ++ (value ++ ';' :: [])) = mentions (value ++ ';' :: []) :=
    mentions_append_of_beginsNothing (by decide) _
  rw [assign, mentioned_line, shape, mentions_append_equals, equals, space,
    mentions_append_cons _ _ rfl (by decide), mentions_eq_nil List.not_mem_nil, List.append_nil]

/-- An assignment of a quoted text mentions what its path and the text do. -/
@[simp] theorem mentioned_assignText (path value : List Char) :
    mentioned (assignText path value) = mentions (path ++ " =".toList) ++ mentions value := by
  -- The quotes around the value belong to no name.
  rw [assignText, mentioned_assign, mentions_quote]

/-- The line that switches a path on mentions what the path does. -/
@[simp] theorem mentioned_switchOn (path : List Char) :
    mentioned (switchOn path) = mentions (path ++ " =".toList) := by
  -- The word that is assigned has no point, so it defines no one.
  have nothing : mentions "true".toList = [] := mentions_eq_nil (by decide)
  rw [switchOn, mentioned_assign, nothing, List.append_nil]

/-- Lines before a bracket mention what they do as they stand, though they are not closed. -/
theorem mentions_bracketed (body : List Line) {closing : Line}
    (bracket : closing.text.head?.any fun c => !Managed.isDefinitionChar c && c != '=')
    (closed : isClosed closing.text = true) :
    Mentions (body ++ [closing]) (mentions (render body) ++ mentions closing.text) := by
  intro rest
  obtain ⟨c, isFirst, other⟩ := (Option.any_eq_true _ _).1 bracket
  obtain ⟨behind, shape⟩ := List.head?_eq_some_iff.1 isFirst
  rw [Bool.and_eq_true, Bool.not_eq_true', bne_iff_ne] at other
  have nonempty : closing.text ≠ [] := by simp [shape]
  -- The bracket cuts off what stands before it, and it is no part of what follows.
  have alone := mentions_line closed rest
  have indentation : '=' ∉ List.replicate (2 * closing.depth) ' ' := fun within => by
    simp at within
  rw [render_cons, Line.render_of_ne_nil nonempty, shape] at alone
  simp only [List.append_assoc, List.cons_append] at alone
  rw [mentions_append_cons _ _ other.1 other.2, mentions_eq_nil indentation, List.nil_append,
    ← shape] at alone
  rw [render_append, render_cons, Line.render_of_ne_nil nonempty, shape]
  simp only [List.append_assoc, List.cons_append]
  rw [← List.append_assoc, mentions_append_cons _ _ other.1 other.2,
    mentions_append_of_equals_not_mem _ indentation, alone, ← shape]

end NixKeeper.Files
