import NixKeeper.Table
import NixKeeper.Text.Search

/-! Names that have changed between releases, and the names that took their place. -/

namespace NixKeeper

/-- Current names of packages, services and options by their former names. -/
structure Renames where
  packages : Table String
  services : Table String
  options : Table String
deriving DecidableEq

namespace Renames

/-- No name has changed. -/
def empty : Renames :=
  ⟨.empty, .empty, .empty⟩

/-- The changes that are known without being told. -/
def builtin : Renames :=
  -- Two former names share one current name.
  { packages := .ofList [
      ("noto-fonts-cjk", "noto-fonts-cjk-sans"),
      ("noto-fonts-emoji", "noto-fonts-color-emoji"),
      ("nerdfonts", "nerd-fonts.symbols-only"),
      ("nerd-fonts", "nerd-fonts.symbols-only")]
    services := .ofList [
      ("services.xserver.desktopManager.gnome", "services.desktopManager.gnome"),
      ("services.xserver.displayManager.gdm", "services.displayManager.gdm"),
      ("services.xserver.desktopManager.plasma5", "services.desktopManager.plasma5"),
      ("services.xserver.displayManager.sddm", "services.displayManager.sddm"),
      ("services.xserver.desktopManager.plasma6", "services.desktopManager.plasma6")]
    options := .ofList [("services.xserver.layout", "services.xserver.xkb.layout")] }

/-- The built-in changes with others laid over them. -/
def withOverrides (overrides : Renames) : Renames :=
  -- A change told by the user replaces a built-in one of the same name.
  ⟨builtin.packages.overlay overrides.packages, builtin.services.overlay overrides.services,
    builtin.options.overlay overrides.options⟩

/-- The current name of a package, without the name of the package set before it. -/
def package (renames : Renames) (name : String) : String :=
  -- The name is looked up without the package set, and so is written without it.
  let bare := String.ofList (Text.dropBeginning "pkgs.".toList name.toList)
  (renames.packages.get? bare).getD bare

/-- The current path of a service. -/
def service (renames : Renames) (name : String) : String :=
  (renames.services.get? name).getD name

/-- The current path of an option. -/
def optionPath (renames : Renames) (path : String) : String :=
  (renames.options.get? path).getD path

/-- The path below a service, if a path leads through the service. -/
def pathBelow? (service path : String) : Option String :=
  -- The point keeps apart services whose names begin alike.
  ((service.toList ++ ['.']).isPrefixOf? path.toList).map String.ofList

/--
The current key of an option of a service.

The key stays as it is if the option has moved out of the service.
-/
def option (renames : Renames) (service key : String) : String :=
  match renames.options.get? (service ++ "." ++ key) with
  | some path =>
    -- The path may lead through the former name of the service or through its current one.
    ((pathBelow? service path).orElse fun _ => pathBelow? (renames.service service) path).getD key
  | none => key

end Renames

end NixKeeper
