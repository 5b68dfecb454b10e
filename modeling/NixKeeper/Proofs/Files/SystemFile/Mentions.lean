import NixKeeper.Proofs.Files.Generated
import NixKeeper.Proofs.Files.Mentions
import NixKeeper.Proofs.Files.SystemFile.Reading
import NixKeeper.Proofs.Managed.Merge

/-! The users that the system file defines: those of the model, and any that its texts mention. -/

namespace NixKeeper.Files.SystemFile

open Managed (mentions mentions_eq_nil BeginsNothing mentions_append_of_beginsNothing)

variable {renames : Renames}

/-- The users that several texts mention. -/
def textMentions (texts : List String) : List String :=
  texts.flatMap fun text => mentions text.toList

/-- The users that the block of a user mentions: itself, and those in its texts. -/
def userMentions (user : User) : List String :=
  -- The name of the block is a definition, and the values may hold others.
  user.username :: (mentions user.description.toList ++ textMentions user.extraGroups ++
    mentions user.shell.toList ++ textMentions user.hashedPassword.toList)

/-- The users that the lines of a service mention, under its current name and with its options. -/
def serviceMentions (renames : Renames) (service : Service) : List String :=
  let name := (renames.service service.name).toList
  -- A service without options is written on one line.
  if service.options.isEmpty then mentions (name ++ ".enable =".toList)
  else
    mentions (name ++ " =".toList) ++ service.options.entries.flatMap fun (key, value) =>
      mentions ((renames.option service.name key).toList ++ " =".toList) ++
        textMentions (literalTexts value)

/-- The users that the list of packages mentions, whose lines no character closes. -/
def packageMentions (renames : Renames) (packages : List Package) : List String :=
  -- The names stand without quotes, so one may continue on the next line.
  mentions (render (indent (indent
    (packages.flatMap fun package => line (renames.package package.name).toList))))

/-- The users that the managed lines mention, in order and as often as they are mentioned. -/
def modelMentions (renames : Renames) (model : Model) : List String :=
  let system := model.system
  let layout := (renames.optionPath "services.xserver.layout").toList
  -- The parts follow in the order of the file.
  textMentions system.hardwarePreset.toList ++
    textMentions [system.hostname, system.timezone, system.locale] ++
    mentions (layout ++ " =".toList) ++ mentions system.keyboardLayout.toList ++
    textMentions system.experimentalFeatures ++
    (distinctUsers model.users).flatMap userMentions ++
    packageMentions renames system.packages ++
    (system.services.filter (·.enabled)).flatMap (serviceMentions renames)

/-- A path in which no definition begins mentions nobody, and neither does its equals sign. -/
theorem mentions_path {path : List Char} (begins : BeginsNothing path = true) :
    mentions (path ++ " =".toList) = [] := by
  -- Only the equals sign follows the path, and it begins nothing.
  rw [mentions_append_of_beginsNothing begins]
  rfl

/-- The block of a user mentions the user, and those in its texts. -/
theorem mentioned_userLines {user : User} (isUsername : IsUsername user.username) :
    mentioned (userLines user) = userMentions user := by
  -- The line that opens the block defines the user, with a space before the equals sign.
  have own : mentions ("users.users.".toList ++ user.username.toList ++ " = \x7b".toList) =
      [user.username] := by
    have defines : Managed.IsDefinition user.username
        ("users.users.".toList ++ user.username.toList ++ [' '] ++ ['=']) :=
      ⟨isUsername.nonempty, isUsername.named, [' '], by simp [Text.isBlank], rfl⟩
    have shape (path : List Char) : path ++ user.username.toList ++ " = \x7b".toList =
        path ++ user.username.toList ++ [' '] ++ ['='] ++ " \x7b".toList := by
      simp
    have brace : mentions " \x7b".toList = [] := mentions_eq_nil (by decide)
    rw [shape, Managed.mentions_definition_append defines, brace]
  have closing : mentions "\x7d;".toList = [] := mentions_eq_nil (by decide)
  rw [userLines, mentioned_block, own, closing]
  simp only [mentioned_append, mentioned_switchOn, mentioned_assignText, mentioned_assign,
    mentions_formatList]
  rw [mentions_path (by decide), mentions_path (by decide), mentions_path (by decide),
    mentions_path (by decide), userMentions, textMentions]
  -- The password is written only where there is one.
  cases user.hashedPassword with
  | none => simp [textMentions, mentioned]
  | some password =>
    simp only [mentioned_assignText]
    rw [mentions_path (by decide)]
    simp [textMentions]

/-- Every line of a user's block is closed. -/
theorem allClosed_userLines (user : User) : AllClosed (userLines user) := by
  have opening : isClosed ("users.users.".toList ++ user.username.toList ++ " = \x7b".toList) = true := by
    have shape : "users.users.".toList ++ user.username.toList ++ " = \x7b".toList =
        "users.users.".toList ++ user.username.toList ++ [' ', '='] ++ [' '] ++ ['{'] := by simp
    rw [shape]
    exact isClosed_append_singleton _ rfl (by decide)
  refine allClosed_block.2 ⟨opening, ?_, rfl⟩
  simp only [allClosed_append, allClosed_switchOn, allClosed_assignText, allClosed_assign, true_and]
  -- The password stands on the last line, if there is one.
  cases user.hashedPassword with
  | none => exact List.forall_mem_nil _
  | some password => exact allClosed_assignText _ _

/-- The lines of a service mention those in its name and in its options. -/
theorem mentioned_serviceLines (service : Service) :
    mentioned (serviceLines renames service) = serviceMentions renames service := by
  rw [serviceLines, serviceMentions]
  dsimp only
  split
  · -- Without options the switch stands on the line with the name.
    rw [mentioned_switchOn]
    congr 1
    simp
  · have opening : mentions ((renames.service service.name).toList ++ " = \x7b".toList) =
        mentions ((renames.service service.name).toList ++ " =".toList) := by
      have shape : (renames.service service.name).toList ++ " = \x7b".toList =
          (renames.service service.name).toList ++ " =".toList ++ " \x7b".toList := by simp
      rw [shape]
      exact Managed.mentions_append_of_equals_not_mem _ (by decide)
    have closing : mentions "\x7d;".toList = [] := mentions_eq_nil (by decide)
    have enable : mentions ("enable".toList ++ " =".toList) = [] := mentions_path (by decide)
    rw [mentioned_block, opening, closing, mentioned_append, mentioned_switchOn, enable,
      mentioned_flatMap]
    simp only [optionLine, mentioned_assign, mentions_format, textMentions, List.nil_append,
      List.append_nil]

/-- Every line of a service is closed. -/
theorem allClosed_serviceLines (service : Service) : AllClosed (serviceLines renames service) := by
  rw [serviceLines]
  split
  · exact allClosed_switchOn _
  · -- The line that opens the block ends with its brace.
    have opening : isClosed ((renames.service service.name).toList ++ " = \x7b".toList) = true := by
      have shape : (renames.service service.name).toList ++ " = \x7b".toList =
          (renames.service service.name).toList ++ [' ', '='] ++ [' '] ++ ['{'] := by simp
      rw [shape]
      exact isClosed_append_singleton _ rfl (by decide)
    refine allClosed_block.2 ⟨opening, allClosed_append.2 ⟨allClosed_switchOn _, ?_⟩, rfl⟩
    exact allClosed_flatMap.2 fun entry _ => allClosed_assign _ _

/-- A list in brackets mentions what its lines do as they stand. -/
theorem mentions_list {opening closing : List Char} (body : List Line)
    (closedOpening : isClosed opening = true) (closedClosing : isClosed closing = true)
    (bracket : closing.head?.any fun c => !Managed.isDefinitionChar c && c != '=') :
    Mentions (indent (block opening body closing))
      (mentions opening ++ (mentions (render (indent (indent body))) ++ mentions closing)) := by
  -- The first line is closed by itself, and the bracket ends whatever stands before it.
  have shape : indent (block opening body closing) =
      [⟨1, opening⟩] ++ (indent (indent body) ++ [⟨1, closing⟩]) := by
    simp [block, line, indent]
  rw [shape]
  exact (mentions_line closedOpening).append (mentions_bracketed _ bracket closedClosing)

/-- The imports mention what the name of the hardware module does. -/
theorem mentions_importLines (system : System) :
    Mentions (indent (importLines system)) (textMentions system.hardwarePreset.toList) := by
  have opening : mentions "imports = [".toList = [] := by decide
  have closing : mentions "];".toList = [] := mentions_eq_nil (by decide)
  -- The brackets around the imports define nothing.
  have list (body : List Line) : Mentions
      (indent (block "imports = [".toList body "];".toList))
      (mentions (render (indent (indent body)))) := by
    have whole := @mentions_list "imports = [".toList "];".toList body (by decide) (by decide)
      (by decide)
    rwa [opening, closing, List.nil_append, List.append_nil] at whole
  rw [importLines]
  cases system.hardwarePreset with
  | none =>
    have inside : mentions (render (indent (indent
        (line "./hardware-configuration.nix".toList ++ [])))) = [] := mentions_eq_nil (by decide)
    have whole := list (line "./hardware-configuration.nix".toList ++ [])
    rwa [inside] at whole
  | some preset =>
    have shape : render (indent (indent (line "./hardware-configuration.nix".toList ++
        line ("inputs.nixos-hardware.nixosModules.".toList ++ preset.toList)))) =
        render (indent (indent (line "./hardware-configuration.nix".toList))) ++
          List.replicate 4 ' ' ++ "inputs.nixos-hardware.nixosModules.".toList ++
            (preset.toList ++ ['\n']) := by
      rw [indent_append, indent_append, render_append]
      simp [render, Line.render, indent, line]
    have begins : BeginsNothing (render (indent (indent (line
        "./hardware-configuration.nix".toList))) ++ List.replicate 4 ' ' ++
          "inputs.nixos-hardware.nixosModules.".toList) = true := by decide
    have whole := list (line "./hardware-configuration.nix".toList ++
      line ("inputs.nixos-hardware.nixosModules.".toList ++ preset.toList))
    rw [shape, mentions_append_of_beginsNothing begins,
      Managed.mentions_append_of_equals_not_mem _ (by decide)] at whole
    have single : textMentions (some preset).toList = mentions preset.toList := List.append_nil _
    rwa [single]

/-- The list of packages mentions what its lines do as they stand. -/
theorem mentions_packageLines (packages : List Package) :
    Mentions (indent (packageLines renames packages)) (packageMentions renames packages) := by
  -- The two lines with the brackets mention nobody.
  have list := @mentions_list "environment.systemPackages = with pkgs; [".toList "];".toList
    (packages.flatMap fun package => line (renames.package package.name).toList)
    (by decide) (by decide) (by decide)
  have opening : mentions "environment.systemPackages = with pkgs; [".toList = [] := by decide
  have closing : mentions "];".toList = [] := mentions_eq_nil (by decide)
  rwa [opening, closing, List.nil_append, List.append_nil] at list

/-- The settings of the machine mention the users in their texts. -/
theorem mentioned_placeLines (system : System) :
    mentioned (placeLines renames system) =
      textMentions [system.hostname, system.timezone, system.locale] ++
        (mentions ((renames.optionPath "services.xserver.layout").toList ++ " =".toList) ++
          mentions system.keyboardLayout.toList) := by
  -- Each line is a fixed path with a quoted value, and only the layout's path depends on the table.
  rw [placeLines, mentioned_append, mentioned_append, mentioned_append, mentioned_assignText,
    mentioned_assignText, mentioned_assignText, mentioned_assignText, mentions_path (by decide),
    mentions_path (by decide), mentions_path (by decide)]
  simp [textMentions]

/-- The lines of a boot loader are closed and mention nobody. -/
theorem mentioned_bootLines (loader : Bootloader) :
    AllClosed (bootLines loader) ∧ mentioned (bootLines loader) = [] := by
  -- All texts of a boot loader are fixed, and none defines a user.
  cases loader with
  | systemdBoot =>
    rw [bootLines, mentioned_switchOn]
    exact ⟨allClosed_switchOn _, mentions_path (by decide)⟩
  | grub =>
    rw [bootLines, mentioned_append, mentioned_switchOn, mentioned_assignText,
      mentions_path (by decide), mentions_path (by decide)]
    exact ⟨allClosed_append.2 ⟨allClosed_switchOn _, allClosed_assignText _ _⟩,
      mentions_eq_nil (by decide)⟩

/-- The lines of the swap file are closed and mention nobody. -/
theorem mentioned_swapLines (size : UInt32) :
    AllClosed (swapLines size) ∧ mentioned (swapLines size) = [] := by
  rw [swapLines]
  split
  · exact ⟨List.forall_mem_nil _, rfl⟩
  · -- The size is written in digits, and everything else is fixed.
    have digits : mentions (Decimal.ofNat (size.toNat * 1024)) = [] :=
      mentions_eq_nil (Text.not_mem_of_class (fun c => Decimal.isDigit_of_mem_ofNat) rfl)
    have opening : mentions "swapDevices = [ \x7b".toList = [] := by decide
    have closing : mentions "\x7d ];".toList = [] := mentions_eq_nil (by decide)
    have device : mentions "/var/lib/swapfile".toList = [] := mentions_eq_nil (by decide)
    constructor
    · refine allClosed_append.2 ⟨allClosed_blank, allClosed_block.2 ⟨by decide, ?_, by decide⟩⟩
      exact allClosed_append.2 ⟨allClosed_assignText _ _, allClosed_assign _ _⟩
    · rw [mentioned_append, mentioned_block, mentioned_append, mentioned_assignText,
        mentioned_assign, mentions_path (by decide), mentions_path (by decide), opening, closing,
        device, digits]
      rfl

/-- No definition begins in a word without points or in what switches its program on. -/
theorem beginsNothing_program {program : List Char} (noPoint : '.' ∉ program) :
    BeginsNothing (program ++ ".enable =".toList) = true := by
  induction program with
  | nil => decide
  | cons c rest ih =>
    have later := ih fun within => noPoint (List.mem_cons_of_mem c within)
    -- The path of users is neither longer than the rest nor a beginning of it.
    have notShorter : ¬ c :: rest ++ ".enable =".toList <+: Managed.userPath := fun begins =>
      absurd (begins.subset (List.mem_append_right _ (by decide : ' ' ∈ ".enable =".toList))) (by decide)
    have notLonger : ¬ Managed.userPath <+: c :: rest ++ ".enable =".toList := by
      rintro ⟨more, whole⟩
      -- What stands behind the first point differs.
      have parts : Managed.userPath = "users".toList ++ ".users.".toList := by decide
      have word : ∀ c ∈ "users".toList, (c != '.') = true := List.all_eq_true.1 (by decide)
      have free : ∀ d ∈ c :: rest, (d != '.') = true := fun d within =>
        bne_iff_ne.2 fun same => noPoint (same ▸ within)
      have behind := congrArg (List.dropWhile (· != '.')) whole
      rw [parts, List.append_assoc, List.dropWhile_append_of_pos word,
        List.dropWhile_append_of_pos free] at behind
      have apart : ¬ ".users.".toList <+: ".enable =".toList := by decide
      exact apart ⟨more, behind⟩
    rw [List.cons_append, BeginsNothing, List.tails_cons, List.all_cons, Bool.and_eq_true]
    refine ⟨?_, later⟩
    rw [← List.cons_append, Bool.eq_false_iff.2 (mt List.isPrefixOf_iff_prefix.1 notShorter),
      Bool.eq_false_iff.2 (mt List.isPrefixOf_iff_prefix.1 notLonger)]
    rfl

/-- The lines that switch shells on are closed and mention nobody. -/
theorem mentioned_shellLines (users : List User) :
    AllClosed (shellLines users) ∧ mentioned (shellLines users) = [] := by
  -- The path of a program cannot be read as the path of a user.
  have each : ∀ program ∈ shellPrograms users, mentioned
      (switchOn ("programs.".toList ++ program.toList ++ ".enable".toList)) = [] := by
    intro program among
    obtain ⟨user, -, names⟩ := shellProgram?_of_mem among
    have begins := beginsNothing_program (point_not_mem_of_shellProgram? names)
    have shape : "programs.".toList ++ program.toList ++ ".enable".toList ++ " =".toList =
        "programs.".toList ++ (program.toList ++ ".enable =".toList) := by simp
    rw [mentioned_switchOn, shape, mentions_append_of_beginsNothing (by decide),
      ← List.append_nil (program.toList ++ _), mentions_append_of_beginsNothing begins]
    rfl
  rw [shellLines]
  split
  · exact ⟨List.forall_mem_nil _, rfl⟩
  · refine ⟨allClosed_append.2 ⟨allClosed_blank, allClosed_flatMap.2 fun _ _ =>
      allClosed_switchOn _⟩, ?_⟩
    rw [mentioned_append, mentioned_flatMap, mentioned_blank, List.nil_append]
    exact List.flatMap_eq_nil_iff.2 each

/-- The managed lines between the imports and the list of packages. -/
def settingLines (renames : Renames) (model : Model) : List Line :=
  let system := model.system
  let users := distinctUsers model.users
  -- Swap, users and shells take lines only as far as there are any.
  blank ++ bootLines system.bootloader ++ switchOn "boot.loader.efi.canTouchEfiVariables".toList ++
    blank ++ placeLines renames system ++ blank ++
    assign "nix.settings.experimental-features".toList (Nix.formatList system.experimentalFeatures) ++
    switchOn "nixpkgs.config.allowUnfree".toList ++ swapLines system.swapSize ++
    (users.flatMap fun user => blank ++ userLines user) ++ shellLines users ++ blank

/-- The managed lines are the imports, the settings with the users, the packages and the services. -/
theorem regionLines_eq (model : Model) :
    regionLines renames model = importLines model.system ++ settingLines renames model ++
      packageLines renames model.system.packages ++
        (model.system.services.filter (·.enabled)).flatMap fun service =>
          blank ++ serviceLines renames service := by
  -- The packages and the services are split off from the settings.
  simp only [regionLines, settingLines, List.append_assoc]

/-- The settings are closed line by line. -/
theorem allClosed_settingLines (model : Model) : AllClosed (settingLines renames model) := by
  have users : AllClosed ((distinctUsers model.users).flatMap fun user => blank ++ userLines user) :=
    -- All parts are assignments or blocks, so every line ends with a closing sign.
    allClosed_flatMap.2 fun user _ => allClosed_append.2 ⟨allClosed_blank, allClosed_userLines user⟩
  have place : AllClosed (placeLines renames model.system) := by
    simp only [placeLines, allClosed_append, allClosed_assignText, and_self]
  simp only [settingLines, allClosed_append, allClosed_blank, allClosed_switchOn, allClosed_assign,
    (mentioned_bootLines _).1, (mentioned_swapLines _).1, (mentioned_shellLines _).1, users, place,
    and_self]

/-- The settings mention the users in their texts and in the blocks of the users. -/
theorem mentioned_settingLines {model : Model}
    (usernames : ∀ user ∈ model.users, IsUsername user.username) :
    mentioned (settingLines renames model) =
      textMentions [model.system.hostname, model.system.timezone, model.system.locale] ++
        (mentions ((renames.optionPath "services.xserver.layout").toList ++ " =".toList) ++
          mentions model.system.keyboardLayout.toList) ++
        textMentions model.system.experimentalFeatures ++
        (distinctUsers model.users).flatMap userMentions := by
  obtain ⟨within, -⟩ := distinctUsers_eq model.users
  have users : ((distinctUsers model.users).flatMap fun user => mentioned (userLines user)) =
      (distinctUsers model.users).flatMap userMentions :=
    List.flatMap_congr fun user among => mentioned_userLines (usernames user (within user among))
  -- The fixed paths name no one, which leaves the values and the users.
  have efi : mentions ("boot.loader.efi.canTouchEfiVariables".toList ++ " =".toList) = [] :=
    mentions_path (by decide)
  have features : mentions ("nix.settings.experimental-features".toList ++ " =".toList) = [] :=
    mentions_path (by decide)
  have unfree : mentions ("nixpkgs.config.allowUnfree".toList ++ " =".toList) = [] :=
    mentions_path (by decide)
  rw [settingLines]
  simp only [mentioned_append, mentioned_blank, mentioned_switchOn, mentioned_assign,
    mentioned_flatMap, (mentioned_bootLines _).2, (mentioned_swapLines _).2,
    (mentioned_shellLines _).2, mentioned_placeLines, mentions_formatList, efi, features, unfree,
    List.nil_append, List.append_nil]
  rw [users, textMentions, textMentions]

/-- The managed lines mention the users that the model mentions. -/
theorem mentions_regionLines {model : Model}
    (usernames : ∀ user ∈ model.users, IsUsername user.username) :
    Mentions (indent (line notice ++ regionLines renames model)) (modelMentions renames model) := by
  have single {lines : List Line} (closed : AllClosed lines) :
      Mentions (indent lines) (mentioned lines) := by
    have indented := mentions_of_closed (allClosed_indent.2 closed)
    rwa [mentioned_indent] at indented
  -- No character closes the notice, but no definition begins in it either.
  have header : Mentions (indent (line notice)) [] := fun rest =>
    mentions_append_of_beginsNothing (by decide) rest
  have closedServices : AllClosed ((model.system.services.filter (·.enabled)).flatMap fun service =>
      blank ++ serviceLines renames service) :=
    allClosed_flatMap.2 fun service _ =>
      allClosed_append.2 ⟨allClosed_blank, allClosed_serviceLines service⟩
  have parts := (((header.append (mentions_importLines model.system)).append
    (single (@allClosed_settingLines renames model))).append
      (@mentions_packageLines renames model.system.packages)).append (single closedServices)
  have names : [] ++ textMentions model.system.hardwarePreset.toList ++
      mentioned (settingLines renames model) ++ packageMentions renames model.system.packages ++
        mentioned ((model.system.services.filter (·.enabled)).flatMap fun service =>
          blank ++ serviceLines renames service) = modelMentions renames model := by
    simp only [mentioned_settingLines usernames, mentioned_flatMap, mentioned_append,
      mentioned_blank, mentioned_serviceLines, List.nil_append, modelMentions, List.append_assoc]
  rw [names] at parts
  rwa [regionLines_eq, indent_append, indent_append, indent_append, indent_append,
    ← List.append_assoc, ← List.append_assoc, ← List.append_assoc]

end NixKeeper.Files.SystemFile
