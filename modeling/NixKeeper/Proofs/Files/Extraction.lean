import NixKeeper.Proofs.Files.Balance
import NixKeeper.Proofs.Files.Generated
import NixKeeper.Proofs.Files.SystemFile.Reading
import NixKeeper.Proofs.Nix.Channel

/-!
Every generated file is one block: the end of its outermost brace is found at the end of the file.

Quoted texts may hold any braces and quotes; what is written as it stands has to be balanced itself.
-/

namespace NixKeeper.Files

open Managed (Leads IsBare bracesMatch byteLength endsEscaped extractBlock extractBlock_append)

variable {renames : Renames}

/-- A user whose block is opened and closed in step. -/
structure AccountBalances (user : User) : Prop where
  username : IsBare user.username.toList
  description : '\\' ∉ user.description.toList
  groups : ∀ group ∈ user.extraGroups, '\\' ∉ group.toList
  /-- The expression of the shell is written as it is. -/
  shell : '"' ∉ user.shell.toList ∧ bracesMatch 0 user.shell.toList = true
  password : ∀ password ∈ user.hashedPassword, '\\' ∉ password.toList

/-- A user whose home has its blocks opened and closed in step. -/
structure HomeBalances (renames : Renames) (user : User) : Prop where
  username : '\\' ∉ user.username.toList
  packages : ∀ package ∈ user.packages, IsBare (renames.package package.name).toList
  program : ∀ program ∈ shellProgram? user.shell.toList, IsBare program
  gitName : ∀ name ∈ user.gitName, '\\' ∉ name.toList
  gitEmail : ∀ email ∈ user.gitEmail, '\\' ∉ email.toList

/-- A service whose lines are opened and closed in step. -/
structure ServiceBalances (renames : Renames) (service : Service) : Prop where
  name : IsBare (renames.service service.name).toList
  options : ∀ entry ∈ service.options.entries,
    IsBare (renames.option service.name entry.1).toList ∧
      ∀ text ∈ literalTexts entry.2, '\\' ∉ text.toList

/--
A model whose quoted texts have no backslashes, and whose other texts have no braces and quotes.

Only the expressions of the shells may have braces, which have to match.
-/
structure Balances (renames : Renames) (model : Model) : Prop where
  version : '\\' ∉ model.nixVersion.toList
  hostname : IsBare model.system.hostname.toList ∧ '\\' ∉ model.system.hostname.toList
  timezone : '\\' ∉ model.system.timezone.toList
  locale : '\\' ∉ model.system.locale.toList
  keyboardLayout : '\\' ∉ model.system.keyboardLayout.toList
  layoutPath : IsBare (renames.optionPath "services.xserver.layout").toList
  features : ∀ feature ∈ model.system.experimentalFeatures, '\\' ∉ feature.toList
  preset : ∀ preset ∈ model.system.hardwarePreset, IsBare preset.toList
  sources : ∀ source ∈ model.sources, IsBare source.name.toList ∧ '\\' ∉ source.url.toList
  packages : ∀ package ∈ model.system.packages, IsBare (renames.package package.name).toList
  services : ∀ service ∈ model.system.services, service.enabled = true →
    ServiceBalances renames service
  accounts : ∀ user ∈ model.users, AccountBalances user
  programs : ∀ user ∈ model.users, ∀ program ∈ shellProgram? user.shell.toList, IsBare program
  owner : ∀ user ∈ model.users.head?, HomeBalances renames user

/-- A bare text before a line's opening brace leads one block deeper. -/
theorem leads_opening {name : List Char} (bare : IsBare name) (depth : Nat) :
    Leads depth (depth + 1) (name ++ " = \x7b".toList) := by
  have brace : Leads (0 + depth) (1 + depth) "= \x7b".toList := Leads.deeper (by decide) depth
  rw [Nat.zero_add, Nat.add_comm 1] at brace
  -- Only the brace behind the name counts.
  exact (bare.leads depth).append_cons rfl brace

/-- A list of bare words between brackets has no block. -/
theorem isLevel_list {opening closing : List Char} {α : Type} {items : List α} {word : α → List Char}
    (bareOpening : IsBare opening) (bareClosing : IsBare closing)
    (bareWords : ∀ item ∈ items, IsBare (word item)) :
    IsLevel (block opening (items.flatMap fun item => line (word item)) closing) := by
  -- Brackets are no braces, so the lines of the list stand side by side.
  have words : IsLevel (items.flatMap fun item => line (word item)) :=
    .flatMap fun item among => isLevel_line ((bareWords item among).leads 0)
  exact ((isLevel_line (bareOpening.leads 0)).append words.indent).append
    (isLevel_line (bareClosing.leads 0))

namespace SystemFile

/-- The lines in the block of a user. -/
def userBody (user : User) : List Line :=
  -- A password is written only where there is one.
  switchOn "isNormalUser".toList ++
    assignText "description".toList user.description.toList ++
    assign "extraGroups".toList (Nix.formatList user.extraGroups) ++
    assign "shell".toList user.shell.toList ++
    match user.hashedPassword with
    | some password => assignText "hashedPassword".toList password.toList
    | none => []

/-- The block of a user stands between a line with the path of the user and a brace. -/
theorem userLines_eq (user : User) : userLines user =
    block ("users.users.".toList ++ user.username.toList ++ " = \x7b".toList) (userBody user)
      "\x7d;".toList :=
  -- The definition names the body by its parts.
  rfl

/-- The lines in the block of a user have whole blocks only. -/
theorem isLevel_userBody {user : User} (balances : AccountBalances user) :
    IsLevel (userBody user) := by
  -- Every line assigns a value without braces, or one in which they match.
  have password : IsLevel (match user.hashedPassword with
      | some password => assignText "hashedPassword".toList password.toList
      | none => []) := by
    cases found : user.hashedPassword with
    | none => exact .nil
    | some password => exact isLevel_assignText (by decide) (balances.password password found)
  have normal : IsLevel (switchOn "isNormalUser".toList) := isLevel_switchOn (by decide)
  have description : IsLevel (assignText "description".toList user.description.toList) :=
    isLevel_assignText (by decide) balances.description
  have groups : IsLevel (assign "extraGroups".toList (Nix.formatList user.extraGroups)) :=
    isLevel_assign (by decide) (leads_formatList balances.groups 0)
  have shell : IsLevel (assign "shell".toList user.shell.toList) :=
    isLevel_assign (by decide) (Managed.leads_of_bracesMatch balances.shell.1 balances.shell.2)
  exact (((normal.append description).append groups).append shell).append password

/-- The block of a user is whole. -/
theorem isLevel_userLines {user : User} (balances : AccountBalances user) : IsLevel (userLines user) := by
  have path : IsBare ("users.users.".toList ++ user.username.toList) :=
    IsBare.append (by decide) balances.username
  -- The path opens the block, and the brace at the end closes it.
  exact isLevel_block (leads_opening path 0) (isLevel_userBody balances) (by decide)

/-- The lines of a service have whole blocks only. -/
theorem isLevel_serviceLines {service : Service} (balances : ServiceBalances renames service) :
    IsLevel (serviceLines renames service) := by
  rw [serviceLines]
  split
  · -- A service without options has a single line, and any other one a block.
    exact isLevel_switchOn (IsBare.append balances.name (by decide))
  · have enable : IsLevel (switchOn "enable".toList) := isLevel_switchOn (by decide)
    apply isLevel_block (leads_opening balances.name 0) (enable.append (.flatMap ?_)) (by decide)
    intro entry isOption
    obtain ⟨key, texts⟩ := balances.options entry isOption
    exact isLevel_assign key (leads_format texts 0)

/-- The imports have no block. -/
theorem isLevel_importLines {system : System}
    (bare : ∀ preset ∈ system.hardwarePreset, IsBare preset.toList) : IsLevel (importLines system) := by
  -- The preset stands on a line of its own, if there is one.
  have hardware : IsLevel (match system.hardwarePreset with
      | some preset => line ("inputs.nixos-hardware.nixosModules.".toList ++ preset.toList)
      | none => []) := by
    cases preset : system.hardwarePreset with
    | none => exact .nil
    | some name =>
      exact isLevel_line ((IsBare.append (by decide) (bare name preset)).leads 0)
  have file : IsLevel (line "./hardware-configuration.nix".toList) := isLevel_line (by decide)
  exact ((isLevel_line (by decide)).append (file.append hardware).indent).append
    (isLevel_line (by decide))

/-- The settings of the boot loader have no block. -/
theorem isLevel_bootLines (loader : Bootloader) : IsLevel (bootLines loader) := by
  -- The second loader is switched on and given a device.
  cases loader with
  | systemdBoot => exact isLevel_switchOn (by decide)
  | grub => exact (isLevel_switchOn (by decide)).append (isLevel_assignText (by decide) (by decide))

/-- The block of the swap file is whole. -/
theorem isLevel_swapLines (size : UInt32) : IsLevel (swapLines size) := by
  rw [swapLines]
  split
  · exact .nil
  · -- The size is written in digits, which are no braces.
    have digits : IsBare (Decimal.ofNat (size.toNat * 1024)) :=
      isBare_of_onPath fun c within =>
        Text.isPathChar_of_isDigit (Decimal.isDigit_of_mem_ofNat within)
    have device : IsLevel (assignText "device".toList "/var/lib/swapfile".toList) :=
      isLevel_assignText (by decide) (by decide)
    apply isLevel_blank.append (isLevel_block (by decide) (device.append ?_) (by decide))
    exact isLevel_assign (by decide) (digits.leads 0)

/-- The lines that switch the users' shells on have no block. -/
theorem isLevel_shellLines {users : List User}
    (bare : ∀ user ∈ users, ∀ program ∈ shellProgram? user.shell.toList, IsBare program) :
    IsLevel (shellLines users) := by
  rw [shellLines]
  split
  · exact .nil
  · -- Each switch names the program of a user, and programs are bare.
    apply isLevel_blank.append (.flatMap ?_)
    intro program among
    obtain ⟨user, isUser, names⟩ := shellProgram?_of_mem among
    have name : IsBare program.toList := bare user isUser _ names
    exact isLevel_switchOn (IsBare.append (IsBare.append (by decide) name) (by decide))

/-- The managed lines of the system file have whole blocks only. -/
theorem isLevel_regionLines {model : Model} (balances : Balances renames model) :
    IsLevel (regionLines renames model) := by
  -- Each part of the region opens and closes its own blocks, in whatever order the parts stand.
  obtain ⟨kept, -⟩ := distinctUsers_eq model.users
  have place : IsLevel (placeLines renames model.system) := by
    refine IsLevel.append (IsLevel.append (IsLevel.append ?_ ?_) ?_) ?_
    · exact isLevel_assignText (by decide) balances.hostname.2
    · exact isLevel_assignText (by decide) balances.timezone
    · exact isLevel_assignText (by decide) balances.locale
    · exact isLevel_assignText balances.layoutPath balances.keyboardLayout
  have users : IsLevel ((distinctUsers model.users).flatMap fun user => blank ++ userLines user) :=
    .flatMap fun user among =>
      isLevel_blank.append (isLevel_userLines (balances.accounts user (kept user among)))
  have shells : IsLevel (shellLines (distinctUsers model.users)) :=
    isLevel_shellLines fun user among => balances.programs user (kept user among)
  have services : IsLevel ((model.system.services.filter (·.enabled)).flatMap fun service =>
      blank ++ serviceLines renames service) := by
    apply IsLevel.flatMap
    intro service among
    obtain ⟨within, enabled⟩ := List.mem_filter.1 among
    exact isLevel_blank.append (isLevel_serviceLines (balances.services service within enabled))
  have efi : IsLevel (switchOn "boot.loader.efi.canTouchEfiVariables".toList) :=
    isLevel_switchOn (by decide)
  have features : IsLevel (assign "nix.settings.experimental-features".toList
      (Nix.formatList model.system.experimentalFeatures)) :=
    isLevel_assign (by decide) (leads_formatList balances.features 0)
  have unfree : IsLevel (switchOn "nixpkgs.config.allowUnfree".toList) :=
    isLevel_switchOn (by decide)
  have packages : IsLevel (packageLines renames model.system.packages) :=
    isLevel_list (by decide) (by decide) balances.packages
  have boot := (isLevel_importLines balances.preset).append isLevel_blank
    |>.append (isLevel_bootLines model.system.bootloader) |>.append efi |>.append isLevel_blank
  have settings := boot.append place |>.append isLevel_blank |>.append features |>.append unfree
    |>.append (isLevel_swapLines model.system.swapSize)
  exact settings.append users |>.append shells |>.append isLevel_blank |>.append packages
    |>.append services

end SystemFile

namespace Home

/-- The managed lines of the home file have whole blocks only. -/
theorem isLevel_regionLines {user : User} (balances : HomeBalances renames user) :
    IsLevel (regionLines renames user) := by
  -- Only the identity for the version control may take a block of its own.
  have username : IsLevel (assignText "home.username".toList user.username.toList) :=
    isLevel_assignText (by decide) balances.username
  have directory : IsLevel (assignText "home.homeDirectory".toList
      ("/home/".toList ++ user.username.toList)) := by
    apply isLevel_assignText (by decide)
    rw [List.mem_append, not_or]
    exact ⟨by decide, balances.username⟩
  have packages : IsLevel (block "home.packages = with pkgs; [".toList
      (user.packages.flatMap fun package => line (renames.package package.name).toList)
      "];".toList) := isLevel_list (by decide) (by decide) balances.packages
  have enabled {program : List Char} (bare : IsBare program) : IsLevel (enableProgram program) :=
    isLevel_switchOn (IsBare.append (IsBare.append (by decide) bare) (by decide))
  have git : IsLevel (gitLines user) := by
    have switch : IsLevel (switchOn "enable".toList) := isLevel_switchOn (by decide)
    have identity : ∀ full ∈ user.gitName, IsLevel (assignText "userName".toList full.toList) :=
      fun full known => isLevel_assignText (by decide) (balances.gitName full known)
    have address : ∀ email ∈ user.gitEmail, IsLevel (assignText "userEmail".toList email.toList) :=
      fun email known => isLevel_assignText (by decide) (balances.gitEmail email known)
    have opens : Leads 0 1 "programs.git = \x7b".toList := by decide
    have closes : Leads 1 0 "\x7d;".toList := by decide
    rw [gitLines]
    -- Without an identity a single line takes the place of the block.
    cases name : user.gitName with
    | none =>
      cases email : user.gitEmail with
      | none => exact enabled (by decide)
      | some known =>
        exact isLevel_block opens (switch.append (IsLevel.nil.append (address known email))) closes
    | some full =>
      have named := switch.append (identity full name)
      cases email : user.gitEmail with
      | none => exact isLevel_block opens (named.append .nil) closes
      | some known => exact isLevel_block opens (named.append (address known email)) closes
  have shell : IsLevel (enableProgram ((shellProgram? user.shell.toList).getD "bash".toList)) := by
    cases named : shellProgram? user.shell.toList with
    | none => exact enabled (by decide)
    | some program => exact enabled (balances.program program named)
  exact username.append directory |>.append isLevel_blank |>.append packages
    |>.append isLevel_blank |>.append git |>.append shell

end Home

namespace Manifest

/-- The managed lines of the manifest have whole blocks only. -/
theorem isLevel_regionLines {model : Model} (balances : Balances renames model) :
    IsLevel (regionLines model) := by
  -- The branches that belong to a version have no other characters than the version and paths.
  have isLevel_address (name : List Char) {url : List Char} (bare : IsBare name)
      (noBackslash : '\\' ∉ url) : IsLevel (address name url) :=
    isLevel_assignText (IsBare.append bare (by decide)) noBackslash
  have isLevel_follows {name : List Char} (bare : IsBare name) : IsLevel (follows name) :=
    isLevel_assignText (IsBare.append bare (by decide)) (by decide)
  have branch (front : List Char) {words : List Char} (noBackslash : '\\' ∉ front)
      (known : ∀ c ∈ words, c ∈ model.nixVersion.toList ∨ Text.isPathChar c = true) :
      '\\' ∉ front ++ words := by
    rw [List.mem_append, not_or]
    refine ⟨noBackslash, fun within => ?_⟩
    rcases known _ within with inVersion | onPath
    · exact balances.version inVersion
    · contradiction
  have packages := isLevel_address "nixpkgs".toList (by decide)
    (branch "github:nixos/nixpkgs/".toList (by decide)
      fun c => Nix.mem_of_mem_packagesBranch)
  have homeManager := isLevel_address "home-manager".toList (by decide)
    (branch "github:nix-community/home-manager/".toList (by decide)
      fun c => Nix.mem_of_mem_homeManagerBranch)
  have hardware : IsLevel (if model.system.hardwarePreset.isSome then
      address "nixos-hardware".toList "github:NixOS/nixos-hardware/master".toList else []) := by
    split
    · exact isLevel_address "nixos-hardware".toList (by decide) (by decide)
    · exact .nil
  have sources : IsLevel (model.sources.flatMap sourceLines) := by
    apply IsLevel.flatMap
    intro source among
    obtain ⟨name, url⟩ := balances.sources source among
    exact (isLevel_address _ name url).append (isLevel_follows name)
  exact packages.append homeManager |>.append (isLevel_follows (by decide)) |>.append hardware
    |>.append sources

/-- The lines that connect the files of the machine have whole blocks only. -/
theorem isLevel_outputLines {model : Model} (balances : Balances renames model) :
    IsLevel (outputLines model) := by
  -- The blocks are nested three deep, and two of their lines name the machine and its first user.
  have primary : IsBare (primaryName model) := by
    rw [primaryName]
    cases users : model.users with
    | nil => decide
    | cons user rest => exact (balances.accounts user (users ▸ List.mem_cons_self)).username
  have machine : Leads 0 1 ("nixosConfigurations.".toList ++ model.system.hostname.toList ++
      " = nixpkgs.lib.nixosSystem \x7b".toList) := by
    have path : IsBare ("nixosConfigurations.".toList ++ model.system.hostname.toList) :=
      IsBare.append (by decide) balances.hostname.1
    have rest : Leads 0 1 "= nixpkgs.lib.nixosSystem \x7b".toList := by decide
    exact (path.leads 0).append_cons rfl rest
  have owner : IsLevel (line ("home-manager.users.".toList ++ primaryName model ++
      " = import ./home.nix;".toList)) :=
    isLevel_line ((IsBare.append (IsBare.append (by decide) primary) (by decide)).leads 0)
  have settled (text : List Char) (leads : Leads 0 0 text) : IsLevel (line text) := isLevel_line leads
  have opens : Leads 0 1 ['{'] := by decide
  have closes : Leads 1 0 ['}'] := by decide
  have inner := isLevel_block opens
    ((settled "home-manager.useGlobalPkgs = true;".toList (by decide)).append
      (settled "home-manager.useUserPackages = true;".toList (by decide)) |>.append owner) closes
  have listed := (settled "./configuration.nix".toList (by decide)).append
    (settled "home-manager.nixosModules.home-manager".toList (by decide)) |>.append inner
  -- The list of modules stands between brackets, which open no block.
  have modules : IsLevel (block "modules = [".toList _ "];".toList) :=
    ((settled "modules = [".toList (by decide)).append listed.indent).append
      (settled "];".toList (by decide))
  have arguments := settled "specialArgs = \x7b inherit inputs; \x7d;".toList (by decide)
  exact isLevel_block (by decide) (isLevel_block machine (arguments.append modules) (by decide))
    (by decide)

end Manifest

/-- What stands in a generated file before the brace that opens its body. -/
def moduleHead : FileKind → List Char
  -- The manifest is a plain set, while the others are functions.
  | .manifest => []
  | .system => "\x7b config, pkgs, inputs, ... \x7d:\n\n".toList
  | .home => "\x7b config, pkgs, ... \x7d:\n\n".toList

/-- The first user's home, or that of the placeholder, has its blocks opened and closed in step. -/
theorem Balances.homeOwner {model : Model} (balances : Balances renames model) :
    HomeBalances renames (homeOwner model) := by
  rw [Files.homeOwner]
  cases users : model.users with
  | nil =>
    -- The home of the placeholder has no texts but the usual shell.
    have bash : shellProgram? "pkgs.bash".toList = some "bash".toList := by decide
    refine ⟨by decide, List.forall_mem_nil _, ?_, nofun, nofun⟩
    intro program names
    obtain rfl := Option.some.inj (bash.symm.trans names)
    decide
  | cons user rest => exact balances.owner user (by rw [users]; rfl)

/-- A generated file is a block of whole lines behind the head of its module. -/
theorem exists_generate_eq {model : Model} (balances : Balances renames model) (kind : FileKind) :
    ∃ body, IsLevel body ∧
      generate renames model kind = moduleHead kind ++ '{' :: ('\n' :: render body ++ ['}', '\n']) := by
  have release (path : List Char) (bare : IsBare path) :
      IsLevel (blank ++ assignText path (Nix.stateVersion model.nixVersion.toList)) :=
    isLevel_blank.append
      (isLevel_assignText bare (Text.not_mem_of_class (Nix.onPath_stateVersion _) rfl))
  -- The braces of the block stand alone on its first line and on its last line.
  have shape (head body : List Line) : render (head ++ block ['{'] body ['}']) =
      render head ++ '{' :: ('\n' :: render (indent body) ++ ['}', '\n']) := by
    simp [block, render, line, Line.render]
  cases kind with
  | manifest =>
    have description : IsLevel (assignText "description".toList
        ("NixOS configuration for ".toList ++ model.system.hostname.toList)) := by
      apply isLevel_assignText (by decide)
      rw [List.mem_append, not_or]
      exact ⟨by decide, balances.hostname.2⟩
    have opens : Leads 0 1 "inputs = \x7b".toList := by decide
    have closes : Leads 1 0 "\x7d;".toList := by decide
    have inputs := isLevel_block opens (isLevel_region (Manifest.isLevel_regionLines balances)) closes
    have inner := description.append isLevel_blank |>.append inputs |>.append isLevel_blank
      |>.append (Manifest.isLevel_outputLines balances)
    exact ⟨_, inner.indent, shape [] _⟩
  | system =>
    have inner := (isLevel_region (SystemFile.isLevel_regionLines balances)).append
      (release "system.stateVersion".toList (by decide))
    rw [← List.append_assoc] at inner
    exact ⟨_, inner.indent, shape (line "\x7b config, pkgs, inputs, ... \x7d:".toList ++ blank) _⟩
  | home =>
    have inner := (isLevel_region (Home.isLevel_regionLines balances.homeOwner)).append
      (release "home.stateVersion".toList (by decide))
    rw [← List.append_assoc] at inner
    exact ⟨_, inner.indent, shape (line "\x7b config, pkgs, ... \x7d:".toList ++ blank) _⟩

/-- The body of a generated file reaches from its outermost brace to the brace on its last line. -/
theorem extractBlock_generate {model : Model} (balances : Balances renames model) (kind : FileKind) :
    ∃ body, generate renames model kind = moduleHead kind ++ '{' :: (body ++ ['}', '\n']) ∧
      extractBlock (generate renames model kind) (byteLength (moduleHead kind ++ ['{'])) =
        some body := by
  obtain ⟨lines, isLevel, whole⟩ := exists_generate_eq balances kind
  refine ⟨'\n' :: render lines, whole, ?_⟩
  have parted : generate renames model kind =
      (moduleHead kind ++ ['{']) ++ (render (blank ++ lines) ++ '}' :: ['\n']) := by
    rw [whole]
    simp [render, blank, line, Line.render]
  -- No backslash stands before the body, and a line feed begins it.
  have unescaped : endsEscaped false (moduleHead kind ++ ['{']) = false := by
    rw [endsEscaped, List.getLast?_concat]
    rfl
  rw [parted, extractBlock_append, unescaped, (isLevel_blank.append isLevel).splitBlock_render]
  rfl

/-- A model whose quoted texts are full of braces and quotes, with a shell in braces. -/
def crowdedModel : Model :=
  -- Every text has braces and quotes that do not match.
  { Model.initial with
    sources := [⟨"mirror", "github:a/b?ref=\x7d\"\x7b"⟩]
    system := { System.initial with
      timezone := "\x7d;\" \x7b"
      services := [{ Service.named "services.openssh" with
        options := .ofList [("banner", .list ["\x7d", "users.users.eve = \x7b \""])] }] }
    users := [{ User.named "ada" with
      description := "\x7d; \"\x7b\""
      shell := "$\x7bpkgs.zsh\x7d/bin/zsh"
      hashedPassword := some "\"\x7d\"" }] }

/-- The only service of the crowded model is balanced. -/
theorem serviceBalances_crowdedModel : ∀ service ∈ crowdedModel.system.services,
    ServiceBalances .builtin service := by
  intro service among
  -- The options are known as a list, not as the table that was built from it.
  have options : crowdedModel.system.services.flatMap (·.options.entries) =
      [("banner", .list ["\x7d", "users.users.eve = \x7b \""])] := by
    decide
  have isOption : ∀ entry ∈ service.options.entries,
      entry = ("banner", Literal.list ["\x7d", "users.users.eve = \x7b \""]) := by
    intro entry member
    have within : entry ∈ crowdedModel.system.services.flatMap (·.options.entries) :=
      List.mem_flatMap.2 ⟨service, among, member⟩
    rw [options] at within
    exact List.mem_singleton.1 within
  obtain rfl := List.mem_singleton.1 among
  refine ⟨by decide, fun entry member => ?_⟩
  rw [isOption entry member]
  exact ⟨by decide, by decide⟩

/-- The crowded model is balanced. -/
theorem balances_crowdedModel : Balances .builtin crowdedModel where
  version := by decide
  hostname := by decide
  timezone := by decide
  locale := by decide
  keyboardLayout := by decide
  layoutPath := by decide
  features := by decide
  preset := nofun
  sources := by decide
  packages := by decide
  services := fun service among _ => serviceBalances_crowdedModel service among
  -- Every value of the model is a closed term; its lists have one member each.
  accounts := by
    intro user among
    obtain rfl := List.mem_singleton.1 among
    exact ⟨by decide, by decide, List.forall_mem_nil _, by decide, by decide⟩
  programs := by
    intro user among
    obtain rfl := List.mem_singleton.1 among
    decide
  owner := by
    intro user first
    cases first
    exact ⟨by decide, List.forall_mem_nil _, by decide, nofun, nofun⟩

/-- Braces and quotes in the texts of a model do not shift the ends of its files. -/
theorem extractBlock_generate_crowdedModel :
    Balances .builtin crowdedModel ∧
      (∃ body, generate .builtin crowdedModel .manifest = '{' :: (body ++ ['}', '\n']) ∧
        extractBlock (generate .builtin crowdedModel .manifest) 1 = some body) ∧
      ∃ body, generate .builtin crowdedModel .system =
          moduleHead .system ++ '{' :: (body ++ ['}', '\n']) ∧
        extractBlock (generate .builtin crowdedModel .system) 33 = some body := by
  have balances := balances_crowdedModel
  -- The offset of the block is the number of bytes of its head.
  have bytes : byteLength (moduleHead .system ++ ['{']) = 33 := by decide
  have system := extractBlock_generate balances .system
  rw [bytes] at system
  exact ⟨balances, extractBlock_generate balances .manifest, system⟩

end NixKeeper.Files
