import NixKeeper.Proofs.Files.Mentions
import NixKeeper.Proofs.Files.PackageList
import NixKeeper.Proofs.Files.SystemFile.Settings
import NixKeeper.Proofs.Managed.UserBlock

/-!
Lines of the system file at which no definition of a user begins, so that they stay when the user is
removed.

A line is told from the head of a definition by its first letter, by its value or by a bracket.
-/

namespace NixKeeper.Files.SystemFile

open Managed (Scrubs removeUserFrom removeUserFrom_line userHead?)

section Inert

variable {username : String}

/-- A text on one line at which no definition of a user begins, whatever follows the line. -/
structure IsInert (username : String) (text : List Char) : Prop where
  oneLine : '\n' ∉ text
  noHead : ∀ rest, userHead? username (text ++ '\n' :: rest) = none

/-- No line begins a definition of the user. -/
def AllInert (username : String) (lines : List Line) : Prop :=
  ∀ line ∈ lines, IsInert username line.text

/-- A text on one line that begins with another letter than the path of users, and not with a space. -/
def IsApart (text : List Char) : Prop :=
  '\n' ∉ text ∧ text.head?.any (fun c => c != 'u' && !Text.isSpace c) = true

instance (text : List Char) : Decidable (IsApart text) :=
  inferInstanceAs (Decidable (_ ∧ _))

/-- The beginning of a text sets it apart. -/
theorem IsApart.append {first second : List Char} (apart : IsApart first) (oneLine : '\n' ∉ second) :
    IsApart (first ++ second) := by
  -- The first letter is that of the first text, and neither text has a line feed.
  obtain ⟨noLineFeed, head⟩ := apart
  refine ⟨fun within => (List.mem_append.1 within).elim noLineFeed oneLine, ?_⟩
  cases first with
  | nil => contradiction
  | cons c first => exact head

/-- A text that is set apart begins no definition. -/
theorem IsApart.isInert {text : List Char} (apart : IsApart text) : IsInert username text := by
  -- The first letter decides, and it is not the one with which the path of users begins.
  obtain ⟨noLineFeed, head⟩ := apart
  cases text with
  | nil => contradiction
  | cons c rest =>
    obtain ⟨other, shown⟩ : c ≠ 'u' ∧ Text.isSpace c = false := by simpa using head
    exact ⟨noLineFeed, fun more => Managed.userHead?_cons_eq_none other shown _⟩

/-- An empty text begins no definition. -/
theorem isInert_nil : IsInert username [] :=
  -- An empty text has no line feed, and begins no block.
  ⟨List.not_mem_nil, fun rest => Managed.userHead?_cons_eq_none (by decide) (by decide) rest⟩

/-- Joined lines begin no definition if neither part does. -/
theorem AllInert.append {first second : List Line} (inert : AllInert username first)
    (later : AllInert username second) : AllInert username (first ++ second) :=
  -- The condition is one on each line.
  List.forall_mem_append.2 ⟨inert, later⟩

/-- The depth of lines does not matter for what begins at them. -/
theorem AllInert.indent {lines : List Line} (inert : AllInert username lines) :
    AllInert username (indent lines) :=
  -- Indentation leaves the text of a line alone.
  List.forall_mem_map.2 inert

/-- A single line begins no definition if its text does not. -/
theorem allInert_line {text : List Char} (inert : IsInert username text) :
    AllInert username (line text) :=
  -- There is only the one line.
  List.forall_mem_singleton.2 inert

/-- An empty line begins no definition. -/
theorem allInert_blank : AllInert username blank :=
  -- An empty line is inert.
  allInert_line isInert_nil

/-- A block begins no definition if neither its first line, its body nor its last line does. -/
theorem allInert_block {opening closing : List Char} {body : List Line}
    (opens : IsInert username opening) (inert : AllInert username body)
    (closes : IsInert username closing) : AllInert username (block opening body closing) :=
  -- A block is its opening, the indented body and its closing.
  ((allInert_line opens).append inert.indent).append (allInert_line closes)

/-- Lines written for several items begin no definition if those for each item do not. -/
theorem allInert_flatMap {α : Type} {items : List α} {written : α → List Line}
    (each : ∀ item ∈ items, AllInert username (written item)) :
    AllInert username (items.flatMap written) :=
  -- Every line comes from one of the items.
  List.forall_mem_flatMap.2 each

/-- An assignment to a path that is set apart begins no definition. -/
theorem allInert_assign {path value : List Char} (apart : IsApart path) (oneLine : '\n' ∉ value) :
    AllInert username (assign path value) := by
  -- Whatever is assigned stands behind the path.
  have shape : path ++ " = ".toList ++ value ++ [';'] = path ++ (" = ".toList ++ value ++ [';']) := by
    simp only [List.append_assoc]
  rw [assign, shape]
  apply allInert_line
  exact (apart.append (by simpa using oneLine)).isInert

/-- An assignment of a text between quotes to a path that is set apart begins no definition. -/
theorem allInert_assignText {path value : List Char} (apart : IsApart path) (oneLine : '\n' ∉ value) :
    AllInert username (assignText path value) := by
  -- Quoting adds no line feed.
  apply allInert_assign apart
  exact fun within => oneLine (Nix.mem_of_mem_quote (by decide) (by decide) within)

/-- An assignment of a list to a path that is set apart begins no definition. -/
theorem allInert_assignList {path : List Char} {items : List String} (apart : IsApart path)
    (oneLine : ∀ item ∈ items, '\n' ∉ item.toList) :
    AllInert username (assign path (Nix.formatList items)) := by
  -- A line feed in the list would stand in one of its texts.
  apply allInert_assign apart
  intro within
  obtain ⟨item, among, inItem⟩ := Nix.mem_of_mem_formatList (by decide) within
  exact oneLine item among inItem

/-- Switching on a path that is set apart begins no definition. -/
theorem allInert_switchOn {path : List Char} (apart : IsApart path) :
    AllInert username (switchOn path) :=
  -- The value is a closed text without a line feed.
  allInert_assign apart (by decide)

/-- A line stays before a text with which it begins no definition. -/
theorem removeUserFrom_render_line {line : Line} (oneLine : '\n' ∉ line.text) {rest : List Char}
    (noHead : userHead? username (line.text ++ '\n' :: rest) = none) :
    removeUserFrom username 0 true (line.render ++ rest) =
      line.render ++ removeUserFrom username 0 true rest := by
  -- An empty line is written without its indentation.
  by_cases empty : line.text = []
  · have single : line.render = ['\n'] := by simp [Line.render, empty]
    rw [empty] at noHead
    rw [single]
    exact removeUserFrom_line List.not_mem_nil rest fun _ => noHead
  · -- The indentation is part of the line, and it hides no head.
    have spaces : ∀ c ∈ List.replicate (2 * line.depth) ' ', Text.isSpace c = true :=
      fun c within => List.eq_of_mem_replicate within ▸ rfl
    have noLineFeed : '\n' ∉ List.replicate (2 * line.depth) ' ' ++ line.text := by
      rw [List.mem_append, not_or]
      exact ⟨fun within => absurd (spaces '\n' within) (by decide), oneLine⟩
    have indented : userHead? username
        (List.replicate (2 * line.depth) ' ' ++ line.text ++ '\n' :: rest) = none := by
      rwa [List.append_assoc, Managed.userHead?_indented spaces]
    have whole := removeUserFrom_line noLineFeed rest fun _ : true = true => indented
    rw [Line.render_of_ne_nil empty]
    simpa using whole

/-- Lines at which no definition begins stay. -/
theorem AllInert.scrubs {lines : List Line} (inert : AllInert username lines) :
    Scrubs username (render lines) (render lines) :=
  -- A line that begins no definition whatever follows begins none before the next lines.
  Scrubs.flatMap fun line among _ =>
    removeUserFrom_render_line (inert line among).oneLine ((inert line among).noHead _)

end Inert

/-! The lines of the system file beside the blocks of users. -/

section Lines

variable {username : String}

/-- The imports begin no definition. -/
theorem allInert_importLines {system : System}
    (oneLine : ∀ preset ∈ system.hardwarePreset, '\n' ∉ preset.toList) :
    AllInert username (importLines system) := by
  have file : IsApart "./hardware-configuration.nix".toList := by decide
  have opening : IsApart "imports = [".toList := by decide
  have closing : IsApart "];".toList := by decide
  rw [importLines]
  refine allInert_block opening.isInert ((allInert_line file.isInert).append ?_) closing.isInert
  cases preset : system.hardwarePreset with
  | none => exact List.forall_mem_nil _
  | some name =>
    -- The line of the hardware module begins with the path to all such modules.
    have front : IsApart "inputs.nixos-hardware.nixosModules.".toList := by decide
    exact allInert_line (front.append (oneLine name preset)).isInert

/-- The settings of the boot loader begin no definition. -/
theorem allInert_bootLines (loader : Bootloader) : AllInert username (bootLines loader) := by
  -- The second loader is switched on and given a device.
  cases loader with
  | systemdBoot => exact allInert_switchOn (by decide)
  | grub => exact (allInert_switchOn (by decide)).append (allInert_assignText (by decide) (by decide))

/-- The swap file begins no definition. -/
theorem allInert_swapLines (size : UInt32) : AllInert username (swapLines size) := by
  rw [swapLines]
  -- Without a swap file there are no lines.
  split
  · exact List.forall_mem_nil _
  · have digits : '\n' ∉ Decimal.ofNat (size.toNat * 1024) :=
      Text.not_mem_of_class (fun c within => Decimal.isDigit_of_mem_ofNat within) rfl
    have device : AllInert username (assignText "device".toList "/var/lib/swapfile".toList) :=
      allInert_assignText (by decide) (by decide)
    have opening : IsApart "swapDevices = [ \x7b".toList := by decide
    have closing : IsApart "\x7d ];".toList := by decide
    apply allInert_blank.append
    apply allInert_block opening.isInert (device.append ?_) closing.isInert
    exact allInert_assign (by decide) digits

/-- The lines that switch the users' shells on begin no definition. -/
theorem allInert_shellLines {users : List User}
    (oneLine : ∀ user ∈ users, '\n' ∉ user.shell.toList) : AllInert username (shellLines users) := by
  rw [shellLines]
  split
  · exact List.forall_mem_nil _
  · apply allInert_blank.append
    apply allInert_flatMap
    intro program among
    obtain ⟨user, isUser, names⟩ := shellProgram?_of_mem among
    -- A program is a part of the shell's expression.
    have noLineFeed : '\n' ∉ program.toList := fun within =>
      oneLine user isUser ((infix_of_shellProgram? names).subset within)
    have front : IsApart "programs.".toList := by decide
    exact allInert_switchOn ((front.append noLineFeed).append (by decide))

/-- A word of characters of a path, or no word at all, begins no block behind an equals sign. -/
theorem exists_head_of_onPath {word : List Char} (onPath : ∀ c ∈ word, Text.isPathChar c = true) :
    ∃ c rest, word ++ [';'] = c :: rest ∧ Text.isBlank c = false ∧ c ≠ '{' := by
  -- Behind no word the semicolon comes first, which is no brace either.
  cases word with
  | nil => exact ⟨';', [], rfl, rfl, by decide⟩
  | cons c rest =>
    have member := onPath c List.mem_cons_self
    exact ⟨c, rest ++ [';'], rfl, Text.isBlank_of_isPathChar member, Text.ne_of_class member rfl⟩

/-- A written literal begins with a visible character, and not with a brace. -/
theorem exists_head_format (literal : Literal) :
    ∃ c rest, Nix.format literal ++ [';'] = c :: rest ∧ Text.isBlank c = false ∧ c ≠ '{' := by
  -- Switches and numbers have only characters of paths, lists and texts a sign of their own.
  cases literal with
  | bool value =>
    exact exists_head_of_onPath (List.all_eq_true.1 (by cases value <;> decide))
  | int value => exact exists_head_of_onPath fun c => Decimal.isPathChar_of_mem_ofInt
  | float value => exact exists_head_of_onPath fun c => Binary64.isPathChar_of_mem_render_plain
  | list items =>
    have opening := Nix.head?_formatList items
    obtain ⟨rest, shape⟩ := List.head?_eq_some_iff.1 opening
    exact ⟨'[', rest ++ [';'], by rw [Nix.format, shape]; rfl, rfl, by decide⟩
  | text value => exact ⟨'"', _, rfl, rfl, by decide⟩

/-- A written literal stands on one line if its texts do. -/
theorem lineFeed_not_mem_format {literal : Literal}
    (oneLine : ∀ text ∈ literalTexts literal, '\n' ∉ text.toList) : '\n' ∉ Nix.format literal := by
  -- Only the texts in a literal could bring a line feed.
  cases literal with
  | bool value => cases value <;> decide
  | int value => exact Text.not_mem_of_class (fun c => Decimal.isPathChar_of_mem_ofInt) rfl
  | float value => exact Text.not_mem_of_class (fun c => Binary64.isPathChar_of_mem_render_plain) rfl
  | list items =>
    intro within
    obtain ⟨item, among, inItem⟩ := Nix.mem_of_mem_formatList (by decide) within
    exact oneLine item among inItem
  | text value =>
    intro within
    exact oneLine value (List.mem_singleton_self value)
      (Nix.mem_of_mem_quote (by decide) (by decide) within)

/-- The only character of a space is blank. -/
theorem forall_mem_space : ∀ c ∈ [' '], Text.isBlank c = true :=
  -- There is only the one character.
  List.forall_mem_singleton.2 rfl

/-- An option begins no definition, not even one whose key is the path of the user. -/
theorem allInert_option {key : List Char} {literal : Literal}
    (named : ∀ c ∈ username.toList, Text.isNameChar c = true)
    (members : ∀ c ∈ key, isPackageChar c = true)
    (oneLine : ∀ text ∈ literalTexts literal, '\n' ∉ text.toList) :
    AllInert username (assign key (Nix.format literal)) := by
  obtain ⟨c, value, shape, shown, noBrace⟩ := exists_head_format literal
  have noEquals : '=' ∉ key ++ [' '] := by
    simpa using Text.not_mem_of_class members (rfl : isPackageChar '=' = false)
  apply allInert_line
  constructor
  · simp only [List.mem_append, not_or]
    exact ⟨⟨⟨Text.not_mem_of_class members rfl, by decide⟩, lineFeed_not_mem_format oneLine⟩,
      by decide⟩
  · intro rest
    -- The head of a definition has a brace where the value begins.
    have parted : key ++ " = ".toList ++ Nix.format literal ++ [';'] ++ '\n' :: rest =
        key ++ [' '] ++ '=' :: ([' '] ++ c :: (value ++ '\n' :: rest)) := by
      rw [List.append_assoc _ (Nix.format literal), shape]
      simp
    rw [parted]
    exact Managed.userHead?_eq_none_of_value named noEquals forall_mem_space shown noBrace

/-- The lines of a service begin no definition. -/
theorem allInert_serviceLines {renames : Renames} {service : Service}
    (named : ∀ c ∈ username.toList, Text.isNameChar c = true)
    (apart : IsApart (renames.service service.name).toList)
    (options : ∀ entry ∈ service.options.entries,
      (∀ c ∈ (renames.option service.name entry.1).toList, isPackageChar c = true) ∧
        ∀ text ∈ literalTexts entry.2, '\n' ∉ text.toList) :
    AllInert username (serviceLines renames service) := by
  rw [serviceLines]
  -- A service without options takes a single line.
  split
  · exact allInert_switchOn (apart.append (by decide))
  · have enable : AllInert username (switchOn "enable".toList) := allInert_switchOn (by decide)
    have closing : IsApart "\x7d;".toList := by decide
    apply allInert_block (apart.append (by decide)).isInert (enable.append ?_) closing.isInert
    apply allInert_flatMap
    intro entry isOption
    obtain ⟨key, texts⟩ := options entry isOption
    exact allInert_option named key texts

/-- What stands in written lines stands in one of them, unless it belongs to the layout. -/
theorem mem_of_mem_render {lines : List Line} {c : Char} (space : c ≠ ' ') (lineFeed : c ≠ '\n')
    (within : c ∈ render lines) : ∃ line ∈ lines, c ∈ line.text := by
  -- The layout is made of spaces and line feeds only.
  obtain ⟨line, among, inLine⟩ := List.mem_flatMap.1 within
  refine ⟨line, among, ?_⟩
  rw [Line.render] at inLine
  split at inLine
  · exact absurd (List.mem_singleton.1 inLine) lineFeed
  · simp only [List.mem_append, List.mem_singleton, lineFeed, or_false] at inLine
    exact inLine.resolve_left fun indented => space (List.eq_of_mem_replicate indented)

/-- Names on lines of their own stay before a closing bracket. -/
theorem scrubs_names {names : List Line} (depth : Nat)
    (named : ∀ c ∈ username.toList, Text.isNameChar c = true)
    (members : ∀ name ∈ names, ∀ c ∈ name.text, isPackageChar c = true) :
    Scrubs username (render (names ++ [⟨depth, "];".toList⟩]))
      (render (names ++ [⟨depth, "];".toList⟩])) := by
  have closing : IsApart "];".toList := by decide
  -- Behind a name there is no equals sign before the bracket, whichever names follow.
  induction names with
  | nil => exact AllInert.scrubs (List.forall_mem_singleton.2 closing.isInert)
  | cons name later ih =>
    obtain ⟨own, others⟩ := List.forall_mem_cons.1 members
    intro rest
    let front := name.text ++ '\n' :: (render later ++ (List.replicate (2 * depth) ' ' ++ [']']))
    have parted : name.text ++ '\n' :: (render (later ++ [⟨depth, "];".toList⟩]) ++ rest) =
        front ++ (';' :: '\n' :: rest) := by
      simp [front, render, Line.render]
    -- The head of a definition would go on with an equals sign, but the bracket comes first.
    have noEquals : '=' ∉ front := by
      have inName : '=' ∉ name.text := Text.not_mem_of_class own rfl
      have inLater : '=' ∉ render later := fun within => by
        obtain ⟨other, among, inOther⟩ := mem_of_mem_render (by decide) (by decide) within
        exact Text.not_mem_of_class (others other among) rfl inOther
      have inSpaces : '=' ∉ List.replicate (2 * depth) ' ' := fun within =>
        absurd (List.eq_of_mem_replicate within) (by decide)
      simp [front, inName, inLater, inSpaces]
    have noHead : userHead? username
        (name.text ++ '\n' :: (render (later ++ [⟨depth, "];".toList⟩]) ++ rest)) = none := by
      rw [parted]
      exact Managed.userHead?_eq_none_of_mem named noEquals
        (by simp [front] : ']' ∈ front) rfl rfl
    rw [List.cons_append, render_cons, List.append_assoc,
      removeUserFrom_render_line (Text.not_mem_of_class own rfl) noHead, ih others, List.append_assoc]

/-- The list of packages stays, even if a package is named like the path of the user. -/
theorem scrubs_packageLines {renames : Renames} {packages : List Package}
    (named : ∀ c ∈ username.toList, Text.isNameChar c = true)
    (members : ∀ package ∈ packages, ∀ c ∈ (renames.package package.name).toList,
      isPackageChar c = true) :
    Scrubs username (render (indent (packageLines renames packages)))
      (render (indent (packageLines renames packages))) := by
  -- The names stand on lines of their own between a line that is apart and the bracket.
  have parted : indent (packageLines renames packages) =
      [⟨1, "environment.systemPackages = with pkgs; [".toList⟩] ++
        (indent (indent (packages.flatMap fun package => line (renames.package package.name).toList)) ++
          [⟨1, "];".toList⟩]) := by
    simp [packageLines, block, line, indent]
  have opening : IsApart "environment.systemPackages = with pkgs; [".toList := by decide
  rw [parted, render_append]
  apply Scrubs.append (AllInert.scrubs (List.forall_mem_singleton.2 opening.isInert))
  apply scrubs_names 1 named
  refine List.forall_mem_map.2 (List.forall_mem_map.2 (List.forall_mem_flatMap.2 ?_))
  intro package among
  exact List.forall_mem_singleton.2 (members package among)

end Lines

end NixKeeper.Files.SystemFile
