import NixKeeper.Files.Lines
import NixKeeper.Files.Statement
import NixKeeper.Nix.Channel

/-! The manifest, which pins the sources of a machine: its text, and what a text says about the model. -/

namespace NixKeeper.Files.Manifest

/-- The line that makes a source use the same packages as everything else. -/
def follows (name : List Char) : List Line :=
  assignText (name ++ ".inputs.nixpkgs.follows".toList) "nixpkgs".toList

/-- The line with the address of a source. -/
def address (name url : List Char) : List Line :=
  assignText (name ++ ".url".toList) url

/-- The lines of a source that the user has declared. -/
def sourceLines (source : Source) : List Line :=
  address source.name.toList source.url.toList ++ follows source.name.toList

/-- The managed lines: the sources. -/
def regionLines (model : Model) : List Line :=
  -- The address of the hardware presets is written only where one of them is used.
  let version := model.nixVersion.toList
  address "nixpkgs".toList ("github:nixos/nixpkgs/".toList ++ Nix.packagesBranch version) ++
    address "home-manager".toList
      ("github:nix-community/home-manager/".toList ++ Nix.homeManagerBranch version) ++
    follows "home-manager".toList ++
    (if model.system.hardwarePreset.isSome then
      address "nixos-hardware".toList "github:NixOS/nixos-hardware/master".toList
    else []) ++
    model.sources.flatMap sourceLines

/-- The username of the first user, or a stand-in. -/
def primaryName (model : Model) : List Char :=
  -- A model without users has a name here all the same.
  match model.users with
  | user :: _ => user.username.toList
  | [] => "user".toList

/-- The lines that connect the files of the machine. -/
def outputLines (model : Model) : List Line :=
  -- Of the model only the hostname and the first user stand in the outputs.
  block "outputs = \x7b self, nixpkgs, home-manager, ... \x7d@inputs: \x7b".toList
    (block ("nixosConfigurations.".toList ++ model.system.hostname.toList ++
        " = nixpkgs.lib.nixosSystem \x7b".toList)
      (line "specialArgs = \x7b inherit inputs; \x7d;".toList ++
        block "modules = [".toList
          (line "./configuration.nix".toList ++
            line "home-manager.nixosModules.home-manager".toList ++
            block ['{']
              (line "home-manager.useGlobalPkgs = true;".toList ++
                line "home-manager.useUserPackages = true;".toList ++
                line ("home-manager.users.".toList ++ primaryName model ++
                  " = import ./home.nix;".toList))
              ['}'])
          "];".toList)
      "\x7d;".toList)
    "\x7d;".toList

/-- The lines of the manifest. -/
def lines (model : Model) : List Line :=
  -- Only the inputs stand in the managed region.
  block ['{']
    (assignText "description".toList
        ("NixOS configuration for ".toList ++ model.system.hostname.toList) ++
      blank ++
      block "inputs = \x7b".toList (region (regionLines model)) "\x7d;".toList ++
      blank ++
      outputLines model)
    ['}']

/-- The text of the manifest. -/
def text (model : Model) : List Char :=
  render (lines model)

/-- The sources that belong to every manifest and are not the user's. -/
def builtinSources : List String :=
  ["home-manager", "nixos-hardware"]

/-- The name and the address of a source in a statement. -/
def source? (clean : List Char) : Option Source := do
  let name := clean.takeWhile Text.isNameChar
  if name.isEmpty then none
  let rest ← ".url".toList.isPrefixOf? (clean.dropWhile Text.isNameChar)
  let rest ← ['='].isPrefixOf? (Text.trimStart rest)
  -- The address reaches to the last quote, with whatever stands between.
  let url ← Text.between? ['"'] ['"'] (Text.trimStart rest)
  return ⟨String.ofList name, String.ofList url⟩

/-- The release and the sources read so far. -/
structure Progress where
  nixVersion : String
  sources : List Source

/-- Takes one statement into account; of several sources of a name the first one counts. -/
def readStatement (progress : Progress) (statement : Statement) : Progress :=
  match source? statement.clean with
  | none => progress
  | some source =>
    -- The address of the package collection tells the release.
    if source.name = "nixpkgs" then
      { progress with nixVersion := String.ofList (Nix.channelOfUrl source.url.toList) }
    else if builtinSources.contains source.name ∨
        progress.sources.any (·.name == source.name) then progress
    else { progress with sources := progress.sources ++ [source] }

/-- The model with the release and the sources of a manifest that holds any statement. -/
def read (text : List Char) (model : Model) : Model :=
  match statements text with
  -- A manifest without statements says nothing, not even that there are no sources.
  | [] => model
  | found =>
    -- The sources are read anew, while the release stays unless one is found.
    let progress := found.foldl readStatement ⟨model.nixVersion, []⟩
    { model with nixVersion := progress.nixVersion, sources := progress.sources }

end NixKeeper.Files.Manifest
