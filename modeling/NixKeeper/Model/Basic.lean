import NixKeeper.Decimal.Binary64
import NixKeeper.Table

/-! The model of a machine: its packages, services, users and settings, and a model to begin with. -/

namespace NixKeeper

/-- A value of a service option. -/
inductive Literal where
  | bool (value : Bool)
  | int (value : Int64)
  | float (value : Binary64)
  | list (items : List String)
  | text (value : String)
deriving DecidableEq

/-- What kind of value an option takes. -/
inductive OptionKind where
  | boolean
  | string
  | int
  | list
  | other
deriving DecidableEq

/-- What a module source says about one of its options. -/
structure OptionHint where
  name : String
  description : String
  kind : OptionKind
  /-- A value to show, as the source writes it. -/
  sample : Option String
deriving DecidableEq

/-- A package, known by its name alone. -/
structure Package where
  name : String
  description : String
deriving DecidableEq

/-- An input of the manifest beside those that every manifest has. -/
structure Source where
  name : String
  url : String
deriving DecidableEq

/-- The program that starts the machine. -/
inductive Bootloader where
  | systemdBoot
  | grub
deriving DecidableEq

/-- A service that can be switched on, and the options set for it. -/
structure Service where
  /-- The whole path of the service, which begins with `services.` as a rule. -/
  name : String
  enabled : Bool
  options : Table Literal
  description : Option String
  /-- Hints kept for editors, which are never written to a generated file. -/
  knownOptions : Option (List OptionHint)
deriving DecidableEq

/-- A user account and the settings of its home. -/
structure User where
  username : String
  description : String
  /-- The expression of the login shell. -/
  shell : String
  extraGroups : List String
  packages : List Package
  gitName : Option String
  gitEmail : Option String
  hashedPassword : Option String
deriving DecidableEq

/-- The settings of the whole machine. -/
structure System where
  hostname : String
  timezone : String
  locale : String
  keyboardLayout : String
  experimentalFeatures : List String
  bootloader : Bootloader
  /-- The size of the swap file in gibibytes; zero stands for no swap. -/
  swapSize : UInt32
  /-- The name of a hardware module. -/
  hardwarePreset : Option String
  /-- The text of the hardware file. -/
  hardwareConfig : Option String
  packages : List Package
  services : List Service
deriving DecidableEq

/-- Everything that is kept about a machine. -/
structure Model where
  /-- The release that the machine follows. -/
  nixVersion : String
  sources : List Source
  system : System
  users : List User
deriving DecidableEq

/-- A service that is switched on and has no options. -/
def Service.named (name : String) : Service :=
  ⟨name, true, .empty, none, none⟩

/-- A user with a plain shell, described by the username. -/
def User.named (username : String) : User :=
  -- Nothing belongs to the user yet.
  { username
    description := username
    shell := "pkgs.bash"
    extraGroups := []
    packages := []
    gitName := none
    gitEmail := none
    hashedPassword := none }

/-- The username that stands for an owner who has not been named yet. -/
def placeholderName : String :=
  "nixuser"

/-- The system to begin with: three packages and a closed-down remote shell. -/
def System.initial : System :=
  { hostname := "nixos-machine"
    timezone := "UTC"
    locale := "en_US.UTF-8"
    keyboardLayout := "us"
    experimentalFeatures := ["nix-command", "flakes"]
    bootloader := .systemdBoot
    swapSize := 0
    hardwarePreset := none
    hardwareConfig := none
    -- The packages come with descriptions, which the files do not have.
    packages := [
      ⟨"vim", "The ubiquitous text editor"⟩,
      ⟨"git", "Distributed version control system"⟩,
      ⟨"wget", "Tool for retrieving files using HTTP, HTTPS, and FTP"⟩]
    services := [
      { Service.named "services.openssh" with
        options := .ofList [
          ("settings.PasswordAuthentication", .bool false),
          ("settings.PermitRootLogin", .text "no")]
        description := some "Secure Shell daemon" }] }

/-- The options of the services to begin with. -/
theorem System.options_initial : initial.services.flatMap (·.options.entries) =
    [("settings.PasswordAuthentication", .bool false), ("settings.PermitRootLogin", .text "no")] := by
  -- Texts are compared and sorted, which the kernel does well.
  decide +kernel

/-- The model to begin with, which has one user under the placeholder name. -/
def Model.initial : Model :=
  -- The first user that is read takes this one's place.
  { nixVersion := "nixos-unstable"
    sources := []
    system := .initial
    users := [
      { User.named placeholderName with
        description := "Primary User"
        extraGroups := ["networkmanager", "wheel"] }] }

end NixKeeper
