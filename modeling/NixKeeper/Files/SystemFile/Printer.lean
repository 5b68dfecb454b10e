import NixKeeper.Files.Lines
import NixKeeper.Files.Shell
import NixKeeper.Model.Basic
import NixKeeper.Model.Renames
import NixKeeper.Nix.Channel
import NixKeeper.Nix.Literal

/-! The text of the file with the settings of the machine. -/

namespace NixKeeper.Files.SystemFile

/-- The modules that the file builds on. -/
def importLines (system : System) : List Line :=
  -- The preset is imported behind the generated hardware file.
  block "imports = [".toList
    (line "./hardware-configuration.nix".toList ++
      match system.hardwarePreset with
      | some preset => line ("inputs.nixos-hardware.nixosModules.".toList ++ preset.toList)
      | none => [])
    "];".toList

/-- The settings of the boot loader. -/
def bootLines : Bootloader → List Line
  -- Only one of the two loaders is told the device.
  | .systemdBoot => switchOn "boot.loader.systemd-boot.enable".toList
  | .grub =>
    switchOn "boot.loader.grub.enable".toList ++ assignText "boot.loader.grub.device".toList "/dev/sda".toList

/-- The name of the machine and the settings of its place. -/
def placeLines (renames : Renames) (system : System) : List Line :=
  -- The path of the layout has changed over time, so the table is asked for it.
  assignText "networking.hostName".toList system.hostname.toList ++
    assignText "time.timeZone".toList system.timezone.toList ++
    assignText "i18n.defaultLocale".toList system.locale.toList ++
    assignText (renames.optionPath "services.xserver.layout").toList system.keyboardLayout.toList

/-- The swap file, if there is to be one; its size is written in mebibytes. -/
def swapLines (size : UInt32) : List Line :=
  -- The model counts gibibytes.
  if size = 0 then []
  else
    blank ++ block "swapDevices = [ \x7b".toList
      (assignText "device".toList "/var/lib/swapfile".toList ++
        assign "size".toList (Decimal.ofNat (size.toNat * 1024)))
      "\x7d ];".toList

/-- The first user of each name. -/
def distinctUsers (users : List User) : List User :=
  -- Two blocks of a user would define every option twice.
  users.foldl (fun kept user =>
    if kept.any (·.username == user.username) then kept else kept ++ [user]) []

/-- The block of a user. -/
def userLines (user : User) : List Line :=
  -- A password is written only where there is one.
  block ("users.users.".toList ++ user.username.toList ++ " = \x7b".toList)
    (switchOn "isNormalUser".toList ++
      assignText "description".toList user.description.toList ++
      assign "extraGroups".toList (Nix.formatList user.extraGroups) ++
      assign "shell".toList user.shell.toList ++
      match user.hashedPassword with
      | some password => assignText "hashedPassword".toList password.toList
      | none => [])
    "\x7d;".toList

/-- The shells that every machine has. -/
def implicitShells : List String :=
  ["bash", "sh"]

/-- The programs of the users' shells that have to be switched on, in order. -/
def shellPrograms (users : List User) : List String :=
  let programs := (users.filterMap fun user => shellProgram? user.shell.toList).map String.ofList
  -- A table of the programs puts them in order and names each once.
  (Table.ofList ((programs.filter (!implicitShells.contains ·)).map (·, ()))).keys

/-- The lines that switch the users' shells on. -/
def shellLines (users : List User) : List Line :=
  -- Without a shell that is known there is no empty line either.
  match shellPrograms users with
  | [] => []
  | programs => blank ++ programs.flatMap fun program =>
    switchOn ("programs.".toList ++ program.toList ++ ".enable".toList)

/-- The packages for all users. -/
def packageLines (renames : Renames) (packages : List Package) : List Line :=
  -- Each package stands on a line of its own, under its current name.
  block "environment.systemPackages = with pkgs; [".toList
    (packages.flatMap fun package => line (renames.package package.name).toList) "];".toList

/-- An option of a service, under its current name. -/
def optionLine (renames : Renames) (service : String) (entry : String × Literal) : List Line :=
  assign (renames.option service entry.1).toList (Nix.format entry.2)

/-- The lines of a service that is switched on; one without options takes a single line. -/
def serviceLines (renames : Renames) (service : Service) : List Line :=
  let name := (renames.service service.name).toList
  -- A block would hold a single line.
  if service.options.isEmpty then switchOn (name ++ ".enable".toList)
  else
    block (name ++ " = \x7b".toList)
      (switchOn "enable".toList ++
        service.options.entries.flatMap (optionLine renames service.name))
      "\x7d;".toList

/-- The managed lines. -/
def regionLines (renames : Renames) (model : Model) : List Line :=
  let system := model.system
  let users := distinctUsers model.users
  -- The parts follow in a fixed order, whatever the model.
  importLines system ++ blank ++
    bootLines system.bootloader ++ switchOn "boot.loader.efi.canTouchEfiVariables".toList ++ blank ++
    placeLines renames system ++ blank ++
    assign "nix.settings.experimental-features".toList
      (Nix.formatList system.experimentalFeatures) ++
    switchOn "nixpkgs.config.allowUnfree".toList ++
    swapLines system.swapSize ++
    (users.flatMap fun user => blank ++ userLines user) ++
    shellLines users ++ blank ++
    packageLines renames system.packages ++
    (system.services.filter (·.enabled)).flatMap fun service =>
      blank ++ serviceLines renames service

/-- The lines of the file. -/
def lines (renames : Renames) (model : Model) : List Line :=
  -- The version of the state stands below the region, where it is not read back.
  line "\x7b config, pkgs, inputs, ... \x7d:".toList ++ blank ++
    block ['{']
      (region (regionLines renames model) ++ blank ++
        assignText "system.stateVersion".toList (Nix.stateVersion model.nixVersion.toList))
      ['}']

/-- The text of the file. -/
def text (renames : Renames) (model : Model) : List Char :=
  render (lines renames model)

end NixKeeper.Files.SystemFile
