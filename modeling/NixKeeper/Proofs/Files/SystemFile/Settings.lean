import NixKeeper.Files.SystemFile.Printer
import NixKeeper.Proofs.Files.PackageList
import NixKeeper.Proofs.Files.Shell
import NixKeeper.Proofs.Files.SystemFile.Classify
import NixKeeper.Proofs.Table

/-! The settings of the machine and its packages are read back from the lines for them. -/

namespace NixKeeper.Files.SystemFile

variable {renames : Renames} {placeholder : String} {model : Model} {seen : List String}

/-- What is known after the statements of some lines. -/
abbrev after (renames : Renames) (placeholder : String) (lines : List Line) (progress : Progress) :
    Progress :=
  -- The lines are read as what they say.
  (said lines).foldl (readStatement renames placeholder) progress

/-- Lines are read one after another. -/
theorem after_append (first second : List Line) (progress : Progress) :
    after renames placeholder (first ++ second) progress =
      after renames placeholder second (after renames placeholder first progress) := by
  -- What is said first changes the progress with which the rest is read.
  rw [after, said_append, List.foldl_append]

/-- The depth of lines does not matter. -/
theorem after_indent (lines : List Line) (progress : Progress) :
    after renames placeholder (indent lines) progress = after renames placeholder lines progress := by
  -- Indentation is trimmed before a line is read.
  rw [after, said_indent]

/-- An empty line says nothing. -/
theorem after_blank (progress : Progress) : after renames placeholder blank progress = progress :=
  -- An empty line says nothing.
  rfl

/-- A statement outside of lists and blocks is read by itself. -/
theorem after_single {lines : List Line} {statement : Statement} (single : said lines = [statement]) :
    after renames placeholder lines ⟨model, .top, seen⟩ =
      readTop renames placeholder ⟨model, .top, seen⟩ statement := by
  -- One statement is one step, and it is taken outside of blocks.
  rw [after, single, List.foldl_cons, List.foldl_nil, readStatement]

/-- A statement that means nothing is passed over. -/
theorem after_nothing {lines : List Line} {statement : Statement} (single : said lines = [statement])
    (nothing : classify statement.clean = .nothing) :
    after renames placeholder lines ⟨model, .top, seen⟩ = ⟨model, .top, seen⟩ := by
  -- A statement that means nothing leaves the progress as it was.
  rw [after_single single, readTop, nothing]

/-- The generated lines that mean nothing for the model. -/
def idleTexts : List (List Char) :=
  -- Devices and fixed switches stand in the file, and nowhere in the model.
  ["imports = [".toList, "./hardware-configuration.nix".toList, "];".toList,
    assignment "boot.loader.grub.device".toList (Nix.quote "/dev/sda".toList) ++ [';'],
    assignment "boot.loader.efi.canTouchEfiVariables".toList "true".toList ++ [';'],
    assignment "nixpkgs.config.allowUnfree".toList "true".toList ++ [';'],
    "swapDevices = [ \x7b".toList,
    assignment "device".toList (Nix.quote "/var/lib/swapfile".toList) ++ [';'], "\x7d ];".toList]

/-- An idle line is passed over. -/
theorem after_idle {text : List Char} (idle : text ∈ idleTexts) :
    after renames placeholder (line text) ⟨model, .top, seen⟩ = ⟨model, .top, seen⟩ := by
  -- All lines are judged at once, so that the paths of the rules are spelled out once.
  have each : idleTexts.all (fun text =>
      (statement? text).all fun statement => classify statement.clean = .nothing) = true := by
    decide
  have judged := List.all_eq_true.1 each text idle
  cases single : statement? text with
  | none => rw [after, said_line, single, Option.toList_none, List.foldl_nil]
  | some statement =>
    rw [single, Option.all_some, decide_eq_true_iff] at judged
    exact after_nothing (by rw [said_line, single, Option.toList_some]) judged

/-- The model with other system settings. -/
def adjusted (model : Model) (change : System → System) : Model :=
  { model with system := change model.system }

/-- Settings that stay as they are make no difference. -/
theorem adjusted_of_same {change : System → System} (same : change model.system = model.system) :
    adjusted model change = model := by
  -- The settings are put back where they were.
  rw [adjusted, same]

/-- The last item of a list stands behind as many items as there are before it. -/
theorem modify_concat {α : Type} (before : List α) (last : α) (change : α → α) :
    (before ++ [last]).modify before.length change = before ++ [change last] := by
  -- The place moves along with the items before it.
  induction before with
  | nil => rfl
  | cons first rest ih => rw [List.cons_append, List.length_cons, List.modify_succ_cons, ih,
      List.cons_append]

/-- The name of a hardware module is plain. -/
structure IsPreset (preset : String) : Prop where
  nonempty : preset.toList ≠ []
  named : ∀ c ∈ preset.toList, Text.isNameChar c = true

/-- The import of a hardware module is a statement. -/
theorem said_preset {preset : String} (isPreset : IsPreset preset) :
    said (line ("inputs.nixos-hardware.nixosModules.".toList ++ preset.toList)) =
      [⟨hardwareWords ++ preset.toList, hardwareWords ++ preset.toList⟩] := by
  have words : IsPath hardwareWords := by decide
  obtain ⟨c, last⟩ : ∃ c, preset.toList.getLast? = some c :=
    ⟨_, List.getLast?_eq_some_getLast isPreset.nonempty⟩
  have isName := isPreset.named c (List.mem_of_mem_getLast? last)
  have whole : (hardwareWords ++ preset.toList).getLast? = some c := by
    rw [List.getLast?_append_of_ne_nil _ isPreset.nonempty, last]
  have shown := Text.forall_getLast?_of_eq whole (Text.isBlank_of_isNameChar isName)
  -- Among the imports no semicolon stands behind the name.
  have unclosed : (hardwareWords ++ preset.toList).getLast? ≠ some ';' := by
    rw [whole]
    rintro ⟨⟩
    exact absurd isName (by decide)
  have single := statement?_of_begins (words.begins.append preset.toList) shown
  rw [dropSemicolon_of_ne unclosed, Text.trimEnd_eq_self_iff.2 shown] at single
  exact (said_line _).trans (congrArg Option.toList single)

/-- The imports name the hardware module. -/
theorem after_importLines {system : System}
    (arePresets : ∀ preset ∈ system.hardwarePreset, IsPreset preset) :
    after renames placeholder (importLines system) ⟨model, .top, seen⟩ =
      ⟨adjusted model fun known =>
        { known with hardwarePreset := system.hardwarePreset.or known.hardwarePreset },
        .top, seen⟩ := by
  -- Every line of the imports is passed over but the one with the module.
  have opening : "imports = [".toList ∈ idleTexts := by simp only [idleTexts, List.mem_cons, true_or]
  have hardware : "./hardware-configuration.nix".toList ∈ idleTexts := by
    simp only [idleTexts, List.mem_cons, true_or, or_true]
  have closing : "];".toList ∈ idleTexts := by
    simp only [idleTexts, List.mem_cons, true_or, or_true]
  rw [importLines, block, after_append, after_append, after_indent, after_append, after_idle opening,
    after_idle hardware]
  cases named : system.hardwarePreset with
  | none => exact after_idle closing
  | some preset =>
    have isPreset := arePresets preset named
    dsimp only
    rw [after_single (said_preset isPreset), readTop,
      classify_hardwarePreset isPreset.nonempty isPreset.named]
    exact after_idle closing

/-- The lines of a boot loader name it. -/
theorem after_bootLines (loader : Bootloader) :
    after renames placeholder (bootLines loader) ⟨model, .top, seen⟩ =
      ⟨adjusted model fun known => { known with bootloader := loader }, .top, seen⟩ := by
  cases loader with
  | systemdBoot =>
    have path : IsPath "boot.loader.systemd-boot.enable".toList := by decide
    -- The switch names the loader; the device is passed over.
    have meaning : classify (assignment "boot.loader.systemd-boot.enable".toList "true".toList) =
        .bootloader .systemdBoot := by
      decide
    rw [bootLines, after_single (said_switchOn path.begins), readTop, meaning]
    rfl
  | grub =>
    have path : IsPath "boot.loader.grub.enable".toList := by decide
    have meaning : classify (assignment "boot.loader.grub.enable".toList "true".toList) =
        .bootloader .grub := by
      decide
    have device : assignment "boot.loader.grub.device".toList (Nix.quote "/dev/sda".toList) ++ [';'] ∈
        idleTexts := by
      simp only [idleTexts, List.mem_cons, true_or, or_true]
    rw [bootLines, after_append, after_single (said_switchOn path.begins), readTop, meaning]
    exact after_idle device

/-- The name of the machine and the settings of its place are read back. -/
theorem after_placeLines (system : System)
    (layout : renames.optionPath "services.xserver.layout" = "services.xserver.xkb.layout") :
    after renames placeholder (placeLines renames system) ⟨model, .top, seen⟩ =
      ⟨adjusted model fun known =>
        { known with
          hostname := system.hostname
          timezone := system.timezone
          locale := system.locale
          keyboardLayout := system.keyboardLayout },
        .top, seen⟩ := by
  -- Each of the four lines is a text at the path of its own rule.
  have text (path : String) (value : List Char) (isPath : IsPath path.toList) :=
    said_assignText value isPath.begins
  rw [placeLines, layout, after_append, after_append, after_append,
    after_single (text "networking.hostName" _ (by decide)), readTop, classify_hostname]
  dsimp only [withSystem]
  rw [after_single (text "time.timeZone" _ (by decide)), readTop, classify_timezone]
  dsimp only [withSystem]
  rw [after_single (text "i18n.defaultLocale" _ (by decide)), readTop, classify_locale]
  dsimp only [withSystem]
  rw [after_single (text "services.xserver.xkb.layout" _ (by decide)), readTop,
    classify_keyboardLayout]
  rfl

/-- The features that are tried out are read back. -/
theorem after_features {features : List String}
    (noBackslash : ∀ feature ∈ features, '\\' ∉ feature.toList)
    (noHardware : ∀ feature ∈ features, ¬ hardwareWords <:+: feature.toList) :
    after renames placeholder (assign "nix.settings.experimental-features".toList
        (Nix.formatList features)) ⟨model, .top, seen⟩ =
      ⟨adjusted model fun known => { known with experimentalFeatures := features }, .top, seen⟩ := by
  have path : IsPath "nix.settings.experimental-features".toList := by decide
  -- The list is one statement, which ends with its bracket.
  have single := said_assign path.begins (Nix.formatList_ne_nil features)
    (Text.forall_getLast?_of_eq (Nix.getLast?_formatList features) rfl)
  rw [after_single single, readTop, classify_experimentalFeatures noBackslash noHardware]
  rfl

/-- The size of the swap file is read back; without a swap file it stays what it was. -/
theorem after_swapLines (size : UInt32) :
    after renames placeholder (swapLines size) ⟨model, .top, seen⟩ =
      ⟨adjusted model fun known =>
        { known with swapSize := if size = 0 then known.swapSize else size }, .top, seen⟩ := by
  rw [swapLines]
  split
  · exact (congrArg (Progress.mk · .top seen) (adjusted_of_same rfl)).symm
  · -- The zero that stands for no swap file is not written; any other size is rounded to itself.
    rename_i positive
    have opening : "swapDevices = [ \x7b".toList ∈ idleTexts := by
      simp only [idleTexts, List.mem_cons, true_or, or_true]
    have device : assignment "device".toList (Nix.quote "/var/lib/swapfile".toList) ++ [';'] ∈
        idleTexts := by
      simp only [idleTexts, List.mem_cons, true_or, or_true]
    have closing : "\x7d ];".toList ∈ idleTexts := by
      simp only [idleTexts, List.mem_cons, true_or, or_true]
    have deviceLine : assignText "device".toList "/var/lib/swapfile".toList =
        line (assignment "device".toList (Nix.quote "/var/lib/swapfile".toList) ++ [';']) := rfl
    have path : IsPath "size".toList := by decide
    have digits : ∀ c ∈ (Decimal.ofNat (size.toNat * 1024)).getLast?, Text.isBlank c = false :=
      fun c last => Text.isBlank_of_isDigit
        (Decimal.isDigit_of_mem_ofNat (List.mem_of_mem_getLast? last))
    have single := said_assign path.begins (Decimal.ofNat_ne_nil (size.toNat * 1024)) digits
    rw [after_append, after_blank, block, after_append, after_append, after_indent, after_append,
      after_idle opening, deviceLine, after_idle device, after_single single, readTop,
      classify_swapSize positive]
    exact after_idle closing

/-- The lines of the list add its packages. -/
theorem after_packages {packages : List Package} (model : Model)
    (words : ∀ package ∈ packages, IsPackageWord (renames.package package.name)) :
    after renames placeholder
        (packages.flatMap fun package => line (renames.package package.name).toList)
        ⟨model, .packages, seen⟩ =
      ⟨adjusted model fun known =>
        { known with packages := withNames renames known.packages (writtenNames renames packages) },
        .packages, seen⟩ := by
  induction packages generalizing model with
  | nil => rfl
  | cons package rest ih =>
    obtain ⟨isWord, laterWords⟩ := List.forall_mem_cons.1 words
    -- A line with one word adds the package of that name, and leaves the list open.
    obtain ⟨statement, single, isWhole⟩ := said_line_of_isPackageWord isWord
    rw [after, List.flatMap_cons, said_append, single, List.foldl_append,
      List.foldl_cons, List.foldl_nil, readStatement, isWhole]
    dsimp only
    rw [readPackages, collectPackages_of_isPackageWord _ isWord]
    exact ih _ laterWords

/-- The list of packages is read back by the names that are written in it. -/
theorem after_packageLines {packages : List Package}
    (words : ∀ package ∈ packages, IsPackageWord (renames.package package.name)) :
    after renames placeholder (packageLines renames packages) ⟨model, .top, seen⟩ =
      ⟨adjusted model fun known =>
        { known with packages := withNames renames known.packages (writtenNames renames packages) },
        .top, seen⟩ := by
  have path : IsPath "environment.systemPackages".toList := by decide
  have value : "with pkgs; [".toList.getLast? = some '[' := by decide
  have unclosed : "with pkgs; [".toList.getLast? ≠ some ';' := by
    rw [value]
    decide
  have nonempty : "with pkgs; [".toList ≠ [] := by decide
  have single := statement?_assignment path.begins nonempty
    (Text.forall_getLast?_of_eq value rfl) unclosed
  have meaning : classify (assignment "environment.systemPackages".toList "with pkgs; [".toList) =
      .packagesStart := by
    decide
  -- No package stands on the opening line itself.
  have nothing : listOpening (assignment "environment.systemPackages".toList
      "with pkgs; [".toList) = ([], false) := by
    decide
  have opened : after renames placeholder
      (line (assignment "environment.systemPackages".toList "with pkgs; [".toList))
      ⟨model, .top, seen⟩ = ⟨model, .packages, seen⟩ := by
    rw [after_single (by rw [said_line, single]; rfl), readTop, meaning, nothing]
    rfl
  have closed (model : Model) : after renames placeholder (line "];".toList)
      ⟨model, .packages, seen⟩ = ⟨model, .top, seen⟩ := rfl
  have opening : "environment.systemPackages = with pkgs; [".toList =
      assignment "environment.systemPackages".toList "with pkgs; [".toList := by
    decide
  rw [packageLines, block, after_append, after_append, after_indent, opening, opened,
    after_packages model words, closed]

/-- The programs that are switched on are those of shells. -/
theorem shellProgram?_of_mem {users : List User} {program : String}
    (among : program ∈ shellPrograms users) :
    ∃ user ∈ users, shellProgram? user.shell.toList = some program.toList := by
  rw [shellPrograms] at among
  -- The programs are sorted through a table, whose keys come from the users.
  have listed := Table.mem_of_mem_keys_ofList among
  simp only [List.map_map, List.mem_map, List.mem_filter, List.mem_filterMap] at listed
  obtain ⟨name, ⟨⟨letters, ⟨user, within, found⟩, rfl⟩, -⟩, rfl⟩ := listed
  refine ⟨user, within, ?_⟩
  rw [found, Function.comp_apply, String.toList_ofList]

/-- The lines that switch the users' shells on are passed over. -/
theorem after_shellLines (users : List User) :
    after renames placeholder (shellLines users) ⟨model, .top, seen⟩ = ⟨model, .top, seen⟩ := by
  have words : IsPath "programs.".toList := by decide
  -- The program of a shell has no point, so its switch means nothing to the system.
  have each (program : String) (among : program ∈ shellPrograms users) :
      after renames placeholder (switchOn ("programs.".toList ++ program.toList ++ ".enable".toList))
        ⟨model, .top, seen⟩ = ⟨model, .top, seen⟩ := by
    obtain ⟨user, -, found⟩ := shellProgram?_of_mem among
    have begins := (words.begins.append program.toList).append ".enable".toList
    exact after_nothing (said_switchOn begins)
      (classify_program (point_not_mem_of_shellProgram? found))
  have all (programs : List String) (within : programs ⊆ shellPrograms users) :
      after renames placeholder (programs.flatMap fun program =>
        switchOn ("programs.".toList ++ program.toList ++ ".enable".toList)) ⟨model, .top, seen⟩ =
          ⟨model, .top, seen⟩ := by
    induction programs with
    | nil => rfl
    | cons program rest ih =>
      obtain ⟨here, later⟩ := List.cons_subset.1 within
      rw [List.flatMap_cons, after_append, each program here, ih later]
  rw [shellLines]
  split
  · rfl
  · rw [after_append, after_blank]
    exact all _ (List.Subset.refl _)

end NixKeeper.Files.SystemFile
