import NixKeeper.Proofs.Files.Generated
import NixKeeper.Proofs.Files.SystemFile.Services
import NixKeeper.Proofs.Files.SystemFile.Users

/-! The settings of a machine, laid over those of any other machine, are what the file for it says. -/

namespace NixKeeper.Files.SystemFile

variable {renames : Renames} {placeholder : String} {seen : List String}

/-- What the imports of a machine are taken to say about its hardware module. -/
def PresetRead (system : System) (found : Option String) : Prop :=
  -- The preset is read from the imports, whatever the table and the model.
  ∀ renames placeholder model seen,
    after renames placeholder (importLines system) ⟨model, .top, seen⟩ =
      ⟨adjusted model fun known =>
        { known with hardwarePreset := found.or known.hardwarePreset }, .top, seen⟩

/-- Whatever stands behind the inputs, the line of a hardware module begins with them. -/
theorem exists_said_module (preset : List Char) :
    ∃ raw rest, said (line ("inputs.nixos-hardware.nixosModules.".toList ++ preset)) =
      [⟨raw, "inputs.".toList ++ rest⟩] := by
  have point : "inputs.".toList.getLast? = some '.' := by decide
  have shown := Text.forall_getLast?_of_eq point rfl
  have words : "inputs.nixos-hardware.nixosModules.".toList =
      "inputs.".toList ++ "nixos-hardware.nixosModules.".toList := by decide
  let ending := Text.trimEnd ("nixos-hardware.nixosModules.".toList ++ preset)
  have raw : Text.trim ("inputs.nixos-hardware.nixosModules.".toList ++ preset) =
      "inputs.".toList ++ ending := by
    rw [words, List.append_assoc]
    exact Text.trimEnd_append _ shown
  have isOne : isStatement ("inputs.".toList ++ ending) = true := rfl
  refine ⟨"inputs.".toList ++ ending, Text.trimEnd (dropSemicolon ending), ?_⟩
  -- Neither the semicolon nor the blanks that are dropped reach back to the point.
  rw [said_line, statement?, raw, if_pos isOne, dropSemicolon_append _ (by decide),
    Text.trimEnd_append _ shown]
  rfl

/-- The imports say about the hardware module what the line for it says. -/
theorem presetRead_of_module {system : System} {preset : String} {found : Option String}
    (named : system.hardwarePreset = some preset)
    (read : ∀ renames placeholder model seen,
      after renames placeholder
          (line ("inputs.nixos-hardware.nixosModules.".toList ++ preset.toList))
          ⟨model, .top, seen⟩ =
        ⟨adjusted model fun known =>
          { known with hardwarePreset := found.or known.hardwarePreset }, .top, seen⟩) :
    PresetRead system found := by
  intro renames placeholder model seen
  -- The other lines of the imports say nothing.
  have opening : "imports = [".toList ∈ idleTexts := by
    simp only [idleTexts, List.mem_cons, true_or]
  have hardware : "./hardware-configuration.nix".toList ∈ idleTexts := by
    simp only [idleTexts, List.mem_cons, true_or, or_true]
  have closing : "];".toList ∈ idleTexts := by
    simp only [idleTexts, List.mem_cons, true_or, or_true]
  rw [importLines, named, block, after_append, after_append, after_indent, after_append,
    after_idle opening, after_idle hardware, read, after_idle closing]

/-- The imports of a machine are taken to say something about its hardware module, if anything. -/
theorem exists_presetRead (system : System) : ∃ found, PresetRead system found := by
  cases named : system.hardwarePreset with
  | none =>
    refine ⟨none, fun _ _ _ _ => ?_⟩
    have presets : ∀ preset ∈ system.hardwarePreset, IsPreset preset := by simp [named]
    rw [after_importLines presets, named]
  | some preset =>
    obtain ⟨raw, rest, single⟩ := exists_said_module preset.toList
    -- The name may be cut short at its first sign that is not of a name, or be no name at all.
    rcases classify_inputs rest with nothing | ⟨name, isModule⟩
    · refine ⟨none, presetRead_of_module named fun renames placeholder model seen => ?_⟩
      exact after_nothing single nothing
    · refine ⟨some name, presetRead_of_module named fun renames placeholder model seen => ?_⟩
      rw [after_single single, readTop, isModule]
      rfl

/-- What stands on the lines of the system file fits there. -/
structure SystemFits (renames : Renames) (model : Model) : Prop where
  hostname : FitsLine model.system.hostname.toList
  timezone : FitsLine model.system.timezone.toList
  locale : FitsLine model.system.locale.toList
  keyboardLayout : FitsLine model.system.keyboardLayout.toList
  preset : ∀ preset ∈ model.system.hardwarePreset, FitsLine preset.toList
  features : ∀ feature ∈ model.system.experimentalFeatures, FitsLine feature.toList ∧
    '\\' ∉ feature.toList ∧ ¬ hardwareWords <:+: feature.toList
  arePackages : ArePackages renames model.system.packages
  areServices : ∀ service ∈ model.system.services.filter (·.enabled), IsService renames service
  areAccounts : ∀ user ∈ model.users, IsAccount user
  /-- The layout of the keyboard is written under its current path. -/
  layout : renames.optionPath "services.xserver.layout" = "services.xserver.xkb.layout"

/-- What the system file says beside the packages is read back. -/
structure RestFits (renames : Renames) (model : Model) : Prop where
  features : ∀ feature ∈ model.system.experimentalFeatures,
    '\\' ∉ feature.toList ∧ ¬ hardwareWords <:+: feature.toList
  areServices : ∀ service ∈ model.system.services.filter (·.enabled), IsService renames service
  areAccounts : ∀ user ∈ model.users, IsAccount user
  /-- The layout of the keyboard is written under its current path. -/
  layout : renames.optionPath "services.xserver.layout" = "services.xserver.xkb.layout"

/-- What fits on the lines of the system file is read back beside the packages as well. -/
theorem SystemFits.rest {model : Model} (fits : SystemFits renames model) : RestFits renames model :=
  -- The rest asks for less than the whole.
  ⟨fun feature among => (fits.features feature among).2, fits.areServices, fits.areAccounts,
    fits.layout⟩

/-- A machine with what the file of another one says, given what is read about its hardware. -/
def laidOver (placeholder : String) (found : Option String) (model base : Model) : Model :=
  { base with
    system := { base.system with
      hostname := model.system.hostname
      timezone := model.system.timezone
      locale := model.system.locale
      keyboardLayout := model.system.keyboardLayout
      experimentalFeatures := model.system.experimentalFeatures
      bootloader := model.system.bootloader
      -- A size of zero is not written, so the known size stays.
      swapSize := if model.system.swapSize = 0 then base.system.swapSize else model.system.swapSize
      hardwarePreset := found.or base.system.hardwarePreset
      packages := model.system.packages.foldl withPackage base.system.packages
      services := (model.system.services.filter (·.enabled)).foldl withService base.system.services }
    users := (distinctUsers model.users).foldl (withUser placeholder) base.users }

/-- The users whose blocks are written are users of the machine, each of another name. -/
theorem distinctUsers_eq (users : List User) :
    (∀ user ∈ distinctUsers users, user ∈ users) ∧ Distinct (distinctUsers users) := by
  obtain ⟨more, same, within, distinct⟩ := exists_foldl_distinct users (.nil : Distinct [])
  -- The fold starts with no users.
  rw [List.nil_append] at same distinct
  rw [distinctUsers, same]
  exact ⟨within, distinct⟩

/-- A machine with what the file of another one says, its packages read by the names that are written. -/
def laidOverNames (renames : Renames) (placeholder : String) (found : Option String)
    (model base : Model) : Model :=
  -- Only the packages are told by their names.
  adjusted (laidOver placeholder found model base) fun system =>
    { system with
      packages := withNames renames base.system.packages
        (writtenNames renames model.system.packages) }

/-- The managed lines of the file are read back, the packages by the names that are written. -/
theorem after_regionLines_of_words {model base : Model} {found : Option String}
    (fits : RestFits renames model)
    (words : ∀ package ∈ model.system.packages, IsPackageWord (renames.package package.name))
    (preset : PresetRead model.system found)
    (distinct : DistinctBy Service.name base.system.services) :
    (after renames placeholder (regionLines renames model) ⟨base, .top, []⟩).model =
      laidOverNames renames placeholder found model base := by
  obtain ⟨within, different⟩ := distinctUsers_eq model.users
  have efi : assignment "boot.loader.efi.canTouchEfiVariables".toList "true".toList ++ [';'] ∈
      idleTexts := by
    simp only [idleTexts, List.mem_cons, true_or, or_true]
  have unfree : assignment "nixpkgs.config.allowUnfree".toList "true".toList ++ [';'] ∈
      idleTexts := by
    simp only [idleTexts, List.mem_cons, true_or, or_true]
  have efiLine : switchOn "boot.loader.efi.canTouchEfiVariables".toList =
      line (assignment "boot.loader.efi.canTouchEfiVariables".toList "true".toList ++ [';']) := rfl
  have unfreeLine : switchOn "nixpkgs.config.allowUnfree".toList =
      line (assignment "nixpkgs.config.allowUnfree".toList "true".toList ++ [';']) := rfl
  have accounts : ∀ user ∈ distinctUsers model.users, IsAccount user :=
    fun user among => fits.areAccounts user (within user among)
  have unseen : ∀ user ∈ distinctUsers model.users, user.username ∉ ([] : List String) :=
    fun _ _ => List.not_mem_nil
  -- The groups of lines are read one after another, each outside of lists and blocks.
  rw [regionLines]
  simp only [after_append, after_blank]
  rw [preset, after_bootLines, efiLine, after_idle efi, after_placeLines _ fits.layout,
    after_features (fun feature among => (fits.features feature among).1)
      (fun feature among => (fits.features feature among).2),
    unfreeLine, after_idle unfree, after_swapLines, after_userBlocks _ accounts different unseen,
    after_shellLines, after_packageLines words]
  -- The lines before those of the services leave the services alone.
  rw [after_services _ fits.areServices]
  · rfl
  · exact distinct

/-- Packages that stand in a list as they are are those of the other machine. -/
theorem laidOverNames_of_arePackages {model base : Model} {found : Option String}
    (arePackages : ArePackages renames model.system.packages) :
    laidOverNames renames placeholder found model base = laidOver placeholder found model base := by
  -- Packages under current names are entered as they are.
  rw [laidOverNames, arePackages.withNames_writtenNames]
  rfl

/-- The imports fit into the region. -/
theorem allFit_importLines {system : System}
    (preset : ∀ preset ∈ system.hardwarePreset, FitsLine preset.toList) :
    AllFit (importLines system) := by
  refine allFit_block.2 ⟨IsPlain.fits (by decide), allFit_append.2 ⟨?_, ?_⟩,
    IsPlain.fits (by decide)⟩
  · exact allFit_line.2 (IsPlain.fits (by decide))
  · -- Only the name of the hardware module comes from the model.
    cases named : system.hardwarePreset with
    | none => exact List.forall_mem_nil _
    | some name => exact allFit_line.2 (FitsLine.append (by decide) (preset name named))

/-- The lines of a boot loader fit into the region. -/
theorem allFit_bootLines (loader : Bootloader) : AllFit (bootLines loader) := by
  cases loader with
  | systemdBoot => exact allFit_switchOn (IsPlain.fits (by decide))
  -- The second loader is switched on and given a device.
  | grub => exact allFit_append.2 ⟨allFit_switchOn (IsPlain.fits (by decide)),
      allFit_assignText (by decide) (IsPlain.fits (by decide))⟩

/-- The lines of the swap file fit into the region. -/
theorem allFit_swapLines (size : UInt32) : AllFit (swapLines size) := by
  rw [swapLines]
  split
  · exact List.forall_mem_nil _
  · -- Digits hold neither a line feed nor a hash sign.
    have digits : IsPlain (Decimal.ofNat (size.toNat * 1024)) :=
      isPlain_of_forall rfl rfl fun c within => Decimal.isDigit_of_mem_ofNat within
    have device : AllFit (assignText "device".toList "/var/lib/swapfile".toList) :=
      allFit_assignText (by decide) (IsPlain.fits (by decide))
    have size := allFit_assign (by decide : IsPlain "size".toList) digits.fits
    exact allFit_append.2 ⟨allFit_blank, allFit_block.2 ⟨IsPlain.fits (by decide),
      allFit_append.2 ⟨device, size⟩, IsPlain.fits (by decide)⟩⟩

/-- The lines that switch the users' shells on fit into the region. -/
theorem allFit_shellLines {users : List User}
    (shells : ∀ user ∈ users, FitsLine user.shell.toList) : AllFit (shellLines users) := by
  have each : ∀ program ∈ shellPrograms users,
      AllFit (switchOn ("programs.".toList ++ program.toList ++ ".enable".toList)) := by
    intro program among
    obtain ⟨user, isUser, names⟩ := shellProgram?_of_mem among
    -- A program is a part of the shell's expression.
    have fits := (shells user isUser).of_part (infix_of_shellProgram? names)
    exact allFit_switchOn ((FitsLine.append (by decide) fits).append_ending (by decide) (by decide))
  rw [shellLines]
  split
  · exact List.forall_mem_nil _
  · exact allFit_append.2 ⟨allFit_blank, allFit_flatMap.2 each⟩

/-- The list of packages fits into the region. -/
theorem allFit_packageLines {packages : List Package}
    (named : ∀ package ∈ packages, FitsLine (renames.package package.name).toList) :
    AllFit (packageLines renames packages) :=
  -- The two brackets are closed texts.
  allFit_block.2 ⟨IsPlain.fits (by decide), allFit_flatMap.2 fun package among =>
    allFit_line.2 (named package among), IsPlain.fits (by decide)⟩

/-- What is written about a machine, under current names, stands on lines of a region. -/
structure LinesFit (renames : Renames) (model : Model) : Prop where
  hostname : FitsLine model.system.hostname.toList
  timezone : FitsLine model.system.timezone.toList
  locale : FitsLine model.system.locale.toList
  layout : FitsLine (renames.optionPath "services.xserver.layout").toList
  keyboardLayout : FitsLine model.system.keyboardLayout.toList
  preset : ∀ preset ∈ model.system.hardwarePreset, FitsLine preset.toList
  features : ∀ feature ∈ model.system.experimentalFeatures, FitsLine feature.toList
  packages : ∀ package ∈ model.system.packages, FitsLine (renames.package package.name).toList
  services : ∀ service ∈ model.system.services.filter (·.enabled), ServiceFits renames service
  accounts : ∀ user ∈ model.users, AccountFits user

/-- A machine that can be read back is written on lines of a region. -/
theorem SystemFits.linesFit {model : Model} (fits : SystemFits renames model) :
    LinesFit renames model where
  hostname := fits.hostname
  timezone := fits.timezone
  locale := fits.locale
  -- What can be read back is stricter than what fits, field by field.
  layout := fits.layout.symm ▸ IsPlain.fits (by decide)
  keyboardLayout := fits.keyboardLayout
  preset := fits.preset
  features := fun feature among => (fits.features feature among).1
  packages := fun package among => (fits.arePackages.words package among).isPlain.fits
  services := fun service among => (fits.areServices service among).fits
  accounts := fun user among => (fits.areAccounts user among).fits

/-- The managed lines of the file fit into its region. -/
theorem allFit_regionLines {model : Model} (fits : LinesFit renames model) :
    AllFit (regionLines renames model) := by
  have place : AllFit (placeLines renames model.system) := by
    rw [placeLines]
    simp only [allFit_append, and_assoc]
    exact ⟨allFit_assignText (by decide) fits.hostname, allFit_assignText (by decide) fits.timezone,
      allFit_assignText (by decide) fits.locale,
      allFit_assign_of_fits fits.layout (fitsLine_quote fits.keyboardLayout)⟩
  have features : AllFit (assign "nix.settings.experimental-features".toList
      (Nix.formatList model.system.experimentalFeatures)) :=
    allFit_assign (by decide) (fitsLine_formatList fits.features)
  -- The users whose blocks are written are users of the machine.
  obtain ⟨within, -⟩ := distinctUsers_eq model.users
  have users : AllFit ((distinctUsers model.users).flatMap fun user => blank ++ userLines user) :=
    allFit_flatMap.2 fun user among => allFit_append.2
      ⟨allFit_blank, allFit_userLines (fits.accounts user (within user among))⟩
  have shells : AllFit (shellLines (distinctUsers model.users)) :=
    allFit_shellLines fun user among => (fits.accounts user (within user among)).shell
  have services : AllFit ((model.system.services.filter (·.enabled)).flatMap fun service =>
      blank ++ serviceLines renames service) :=
    allFit_flatMap.2 fun service among => allFit_append.2
      ⟨allFit_blank, allFit_serviceLines (fits.services service among)⟩
  have efi : AllFit (switchOn "boot.loader.efi.canTouchEfiVariables".toList) :=
    allFit_switchOn (IsPlain.fits (by decide))
  have unfree : AllFit (switchOn "nixpkgs.config.allowUnfree".toList) :=
    allFit_switchOn (IsPlain.fits (by decide))
  simp only [regionLines, allFit_append, and_assoc]
  exact ⟨allFit_importLines fits.preset, allFit_blank, allFit_bootLines _, efi, allFit_blank, place,
    allFit_blank, features, unfree, allFit_swapLines _, users, shells, allFit_blank,
    allFit_packageLines fits.packages, services⟩

/-- The text of the file holds the statements of its managed lines. -/
theorem statements_text {model : Model} (fits : LinesFit renames model) :
    statements (text renames model) = said (regionLines renames model) := by
  -- All lines between the markers fit, and the notice says nothing.
  have fit : AllFit (indent (line notice ++ regionLines renames model)) := by
    rw [allFit_indent, allFit_append]
    exact ⟨allFit_notice, allFit_regionLines fits⟩
  rw [text, lines_eq, statements_render _ 1 (fun marker isMarker =>
    not_infix_of_hash_not_mem isMarker hash_not_mem_render_opening) fit, said_indent, said_append,
    said_notice, List.nil_append]

/-- The text of the file says what the settings are, the packages by the names that are written. -/
theorem read_text_of_words {model base : Model} {found : Option String}
    (linesFit : LinesFit renames model) (fits : RestFits renames model)
    (words : ∀ package ∈ model.system.packages, IsPackageWord (renames.package package.name))
    (preset : PresetRead model.system found)
    (distinct : DistinctBy Service.name base.system.services) :
    read renames placeholder (text renames model) base =
      laidOverNames renames placeholder found model base := by
  -- The region is all the file says, and what it says is read line by line.
  have progress :=
    @after_regionLines_of_words renames placeholder _ _ _ fits words preset distinct
  rw [after] at progress
  rw [read, statements_text linesFit, progress]

/-- The text of the file says what the settings of the machine are. -/
theorem read_text {model base : Model} {found : Option String} (fits : SystemFits renames model)
    (preset : PresetRead model.system found)
    (distinct : DistinctBy Service.name base.system.services) :
    read renames placeholder (text renames model) base = laidOver placeholder found model base := by
  -- Names that stay are words, so the more general reading applies.
  rw [read_text_of_words fits.linesFit fits.rest fits.arePackages.words preset distinct,
    laidOverNames_of_arePackages fits.arePackages]

end NixKeeper.Files.SystemFile
