import NixKeeper.Files.Generated
import NixKeeper.Proofs.Files.Assignment
import NixKeeper.Proofs.Files.Generated
import NixKeeper.Proofs.Nix.Channel

/-! The release and the sources of a machine are read back from its manifest. -/

namespace NixKeeper.Files.Manifest

/-- A source that is read back. -/
structure IsSource (source : Source) : Prop where
  nonempty : source.name.toList ≠ []
  named : ∀ c ∈ source.name.toList, Text.isNameChar c = true
  notReserved : source.name ∉ reservedSources
  noQuote : '"' ∉ source.url.toList
  fits : FitsLine source.url.toList

/-- Sources of distinct names that are read back. -/
structure AreSources (sources : List Source) : Prop where
  each : ∀ source ∈ sources, IsSource source
  distinct : sources.Pairwise fun first second => first.name ≠ second.name

/-- A name is followed by what is left behind it. -/
theorem takeWhile_name {name rest : List Char} (named : ∀ c ∈ name, Text.isNameChar c = true) :
    (name ++ '.' :: rest).takeWhile Text.isNameChar = name ∧
      (name ++ '.' :: rest).dropWhile Text.isNameChar = '.' :: rest := by
  -- The name ends at the point.
  have point : Text.isNameChar '.' = false := rfl
  constructor
  · rw [List.takeWhile_append_of_pos named, List.takeWhile_cons_of_neg (by simp [point]), List.append_nil]
  · rw [List.dropWhile_append_of_pos named, List.dropWhile_cons_of_neg (by simp [point])]

/-- The address of a source is read back. -/
theorem source?_address {name url : List Char} (nonempty : name ≠ [])
    (named : ∀ c ∈ name, Text.isNameChar c = true) (noQuote : '"' ∉ url) :
    source? (assignment (name ++ ".url".toList) (Nix.quote url)) =
      some ⟨String.ofList name, String.ofList url⟩ := by
  have shape : assignment (name ++ ".url".toList) (Nix.quote url) =
      name ++ '.' :: ("url = ".toList ++ Nix.quote url) := by
    simp [assignment]
  have present : name.isEmpty = false := by simpa using nonempty
  -- Without quotes in it, the address is quoted as it is.
  have address : Text.between? ['"'] ['"'] (Nix.quote url) = some url := by
    rw [Nix.quote, Nix.escape_of_not_mem noQuote]
    exact Text.between?_append ['"'] url ['"']
  have behind : ".url".toList.isPrefixOf? ('.' :: ("url = ".toList ++ Nix.quote url)) =
      some (" = ".toList ++ Nix.quote url) := rfl
  have equals : ['='].isPrefixOf? (Text.trimStart (" = ".toList ++ Nix.quote url)) =
      some (' ' :: Nix.quote url) := rfl
  have value : Text.trimStart (' ' :: Nix.quote url) = Nix.quote url := rfl
  rw [shape, source?, (takeWhile_name named).1, (takeWhile_name named).2, behind]
  simp only [present, Bool.false_eq_true, if_false, Option.bind_eq_bind, Option.bind_some, equals,
    value, address, Option.pure_def]

/-- What a source follows is not its address. -/
theorem source?_follows {name : List Char} (value : List Char)
    (named : ∀ c ∈ name, Text.isNameChar c = true) :
    source? (assignment (name ++ ".inputs.nixpkgs.follows".toList) value) = none := by
  -- Behind the name the path goes on with the inputs, not with an address.
  have shape : assignment (name ++ ".inputs.nixpkgs.follows".toList) value =
      name ++ '.' :: ("inputs.nixpkgs.follows = ".toList ++ value) := by
    simp [assignment]
  have apart : ".url".toList.isPrefixOf? ('.' :: ("inputs.nixpkgs.follows = ".toList ++ value)) =
      none := rfl
  rw [shape, source?, (takeWhile_name named).1, (takeWhile_name named).2, apart]
  cases name.isEmpty <;> rfl

/-- The address of a source says what it is. -/
theorem said_address {name url : List Char} (nonempty : name ≠ [])
    (named : ∀ c ∈ name, Text.isNameChar c = true) (noQuote : '"' ∉ url) :
    ∃ statement, said (address name url) = [statement] ∧
      source? statement.clean = some ⟨String.ofList name, String.ofList url⟩ := by
  have isPath : IsPath (name ++ ".url".toList) := IsPath.of_name_append named (by decide)
  exact ⟨_, said_assignText url isPath.begins, source?_address nonempty named noQuote⟩

/-- What a source follows says nothing about its address. -/
theorem said_follows {name : List Char} (named : ∀ c ∈ name, Text.isNameChar c = true) :
    ∃ statement, said (follows name) = [statement] ∧ source? statement.clean = none := by
  have isPath : IsPath (name ++ ".inputs.nixpkgs.follows".toList) :=
    IsPath.of_name_append named (by decide)
  -- The path ends in `follows` and not in `url`, so no source is declared by it.
  exact ⟨_, said_assignText _ isPath.begins, source?_follows _ named⟩

/-- The statements of a declared source add it, unless there is one of its name. -/
theorem foldl_sourceLines {source : Source} {progress : Progress} (isSource : IsSource source)
    (new : ∀ other ∈ progress.sources, other.name ≠ source.name) :
    (said (sourceLines source)).foldl readStatement progress =
      { progress with sources := progress.sources ++ [source] } := by
  obtain ⟨declared, saysAddress, isAddress⟩ :=
    said_address isSource.nonempty isSource.named isSource.noQuote
  obtain ⟨followed, saysFollows, isNone⟩ := said_follows isSource.named
  have reserved := isSource.notReserved
  simp only [reservedSources, List.mem_cons, List.not_mem_nil, or_false, not_or] at reserved
  -- The source is neither one of the reserved ones nor there already.
  have own : ¬ (builtinSources.contains source.name ∨
      progress.sources.any (·.name == source.name)) := by
    simp only [builtinSources, List.contains_cons, List.contains_nil, Bool.or_false, Bool.or_eq_true,
      beq_iff_eq, List.any_eq_true, not_or, not_exists, not_and]
    exact ⟨⟨reserved.2.1, reserved.2.2⟩, new⟩
  rw [String.ofList_toList, String.ofList_toList] at isAddress
  rw [sourceLines, said_append, saysAddress, saysFollows, List.singleton_append, List.foldl_cons,
    List.foldl_cons, List.foldl_nil]
  simp only [readStatement, isAddress, isNone, if_neg reserved.1, if_neg own]

/-- The declared sources are read in their order. -/
theorem foldl_sources {sources : List Source} {progress : Progress} (areSources : AreSources sources)
    (new : ∀ source ∈ sources, ∀ other ∈ progress.sources, other.name ≠ source.name) :
    (said (sources.flatMap sourceLines)).foldl readStatement progress =
      { progress with sources := progress.sources ++ sources } := by
  induction sources generalizing progress with
  | nil => simp [said]
  | cons source rest ih =>
    obtain ⟨isSource, later⟩ := List.forall_mem_cons.1 areSources.each
    obtain ⟨apart, laterDistinct⟩ := List.pairwise_cons.1 areSources.distinct
    obtain ⟨newName, laterNew⟩ := List.forall_mem_cons.1 new
    -- What comes later is new beside the known sources and beside the one just read.
    have stillNew : ∀ other ∈ rest, ∀ known ∈ progress.sources ++ [source],
        known.name ≠ other.name := by
      intro other among known within
      rcases List.mem_append.1 within with old | added
      · exact laterNew other among known old
      · exact List.mem_singleton.1 added ▸ apart other among
    rw [List.flatMap_cons, said_append, List.foldl_append, foldl_sourceLines isSource newName,
      ih ⟨later, laterDistinct⟩ stillNew, List.append_assoc, List.singleton_append]

/-- The address of a built-in source adds no source. -/
theorem foldl_address_of_builtin {name : String} {url : List Char} (progress : Progress)
    (nonempty : name.toList ≠ []) (named : ∀ c ∈ name.toList, Text.isNameChar c = true)
    (noQuote : '"' ∉ url) (isBuiltin : name ∈ builtinSources) (other : name ≠ "nixpkgs") :
    (said (address name.toList url)).foldl readStatement progress = progress := by
  obtain ⟨statement, single, isAddress⟩ := said_address nonempty named noQuote
  -- Built-in names are refused like those that are taken.
  have known : builtinSources.contains name ∨ progress.sources.any (·.name == name) :=
    .inl (List.contains_iff_mem.2 isBuiltin)
  rw [String.ofList_toList] at isAddress
  rw [single, List.foldl_cons, List.foldl_nil]
  simp only [readStatement, isAddress, if_neg other, if_pos known]

/-- What a source follows adds nothing. -/
theorem foldl_follows {name : List Char} (progress : Progress)
    (named : ∀ c ∈ name, Text.isNameChar c = true) :
    (said (follows name)).foldl readStatement progress = progress := by
  obtain ⟨statement, single, isNone⟩ := said_follows named
  -- A line that declares no source leaves the progress as it was.
  rw [single, List.foldl_cons, List.foldl_nil]
  simp only [readStatement, isNone]


/-- The address of a source fits into the region. -/
theorem allFit_address {name url : List Char} (named : ∀ c ∈ name, Text.isNameChar c = true)
    (fits : FitsLine url) : AllFit (address name url) :=
  -- The path is a name and a fixed ending.
  allFit_assignText (IsPath.of_name_append named (by decide)).isPlain fits

/-- What a source follows fits into the region. -/
theorem allFit_follows {name : List Char} (named : ∀ c ∈ name, Text.isNameChar c = true) :
    AllFit (follows name) :=
  -- The path is a name and a fixed ending, and the value is a closed text.
  allFit_assignText (IsPath.of_name_append named (by decide)).isPlain (IsPlain.fits (by decide))

/-- A branch stands behind an address as it is. -/
theorem fitsLine_append_branch {word branch : List Char} (plain : IsPlain word)
    (noQuote : '"' ∉ word) (onPath : ∀ c ∈ branch, Text.isPathChar c = true) :
    FitsLine (word ++ branch) ∧ '"' ∉ word ++ branch := by
  have plainBranch : IsPlain branch := @isPlain_of_forall Text.isPathChar branch rfl rfl onPath
  refine ⟨FitsLine.append plain plainBranch.fits, ?_⟩
  rw [List.mem_append, not_or]
  exact ⟨noQuote, Text.not_mem_of_class onPath rfl⟩

/-- The address of the package collection stands on a line as it is. -/
theorem fitsLine_packages {version : List Char} (isVersion : Nix.IsVersion version) :
    FitsLine ("github:nixos/nixpkgs/".toList ++ Nix.packagesBranch version) ∧
      '"' ∉ "github:nixos/nixpkgs/".toList ++ Nix.packagesBranch version :=
  fitsLine_append_branch (by decide) (by decide) (Nix.onPath_packagesBranch isVersion.onPath)

/-- The address of the home manager stands on a line as it is. -/
theorem fitsLine_homeManager {version : List Char} (isVersion : Nix.IsVersion version) :
    FitsLine ("github:nix-community/home-manager/".toList ++ Nix.homeManagerBranch version) ∧
      '"' ∉ "github:nix-community/home-manager/".toList ++ Nix.homeManagerBranch version :=
  fitsLine_append_branch (by decide) (by decide) (Nix.onPath_homeManagerBranch isVersion.onPath)

/-- The names of the built-in sources are names. -/
theorem named_builtin : (∀ c ∈ "nixpkgs".toList, Text.isNameChar c = true) ∧
    (∀ c ∈ "home-manager".toList, Text.isNameChar c = true) ∧
      ∀ c ∈ "nixos-hardware".toList, Text.isNameChar c = true :=
  -- The three names are closed texts.
  ⟨List.all_eq_true.1 (by decide), List.all_eq_true.1 (by decide), List.all_eq_true.1 (by decide)⟩

/-- The managed lines of a manifest fit into its region. -/
theorem allFit_regionLines {model : Model} (isVersion : Nix.IsVersion model.nixVersion.toList)
    (areSources : AreSources model.sources) : AllFit (regionLines model) := by
  obtain ⟨packages, homeManager, hardware⟩ := named_builtin
  -- Only the sources and the release are texts of the model.
  have hardwareLines : AllFit (if model.system.hardwarePreset.isSome then
      address "nixos-hardware".toList "github:NixOS/nixos-hardware/master".toList else []) := by
    split
    · exact allFit_address hardware (IsPlain.fits (by decide))
    · exact List.forall_mem_nil _
  have sourceLines : AllFit (model.sources.flatMap sourceLines) := by
    refine allFit_flatMap.2 fun source among => ?_
    have isSource := areSources.each source among
    exact allFit_append.2 ⟨allFit_address isSource.named isSource.fits, allFit_follows isSource.named⟩
  simp only [regionLines, allFit_append]
  exact ⟨⟨⟨⟨allFit_address packages (fitsLine_packages isVersion).1,
    allFit_address homeManager (fitsLine_homeManager isVersion).1⟩, allFit_follows homeManager⟩,
      hardwareLines⟩, sourceLines⟩

/-- The statements of a manifest say which release and which sources a machine has. -/
theorem foldl_regionLines {model : Model} (version : String)
    (isVersion : Nix.IsVersion model.nixVersion.toList) (areSources : AreSources model.sources) :
    (said (regionLines model)).foldl readStatement ⟨version, []⟩ =
      ⟨String.ofList (Nix.fullName model.nixVersion.toList), model.sources⟩ := by
  obtain ⟨packages, homeManager, hardware⟩ := named_builtin
  obtain ⟨statement, single, isAddress⟩ :=
    said_address (by decide) packages (fitsLine_packages isVersion).2
  have release : Nix.channelOfUrl
      ("github:nixos/nixpkgs/".toList ++ Nix.packagesBranch model.nixVersion.toList) =
        Nix.fullName model.nixVersion.toList := by
    have slash : "github:nixos/nixpkgs/".toList = "github:nixos/nixpkgs".toList ++ ['/'] := by decide
    rw [slash, List.append_assoc]
    exact isVersion.channelOfUrl_packagesBranch "github:nixos/nixpkgs".toList
  -- The release is told by the first line, the address of the package collection.
  have pinned : (said (address "nixpkgs".toList ("github:nixos/nixpkgs/".toList ++
      Nix.packagesBranch model.nixVersion.toList))).foldl readStatement ⟨version, []⟩ =
        ⟨String.ofList (Nix.fullName model.nixVersion.toList), []⟩ := by
    have named : String.ofList "nixpkgs".toList = "nixpkgs" := String.ofList_toList
    rw [single, List.foldl_cons, List.foldl_nil, readStatement, isAddress]
    dsimp only
    rw [if_pos named, String.toList_ofList, release]
  -- The inputs that every manifest has are no sources.
  have hardwareLines (progress : Progress) : (said (if model.system.hardwarePreset.isSome then
      address "nixos-hardware".toList "github:NixOS/nixos-hardware/master".toList
        else [])).foldl readStatement progress = progress := by
    split
    · exact foldl_address_of_builtin progress (by decide) hardware (by decide) (by decide) (by decide)
    · rfl
  have noneBefore : ∀ source ∈ model.sources, ∀ other ∈ ([] : List Source),
      other.name ≠ source.name := fun _ _ _ none => absurd none List.not_mem_nil
  simp only [regionLines, said_append, List.foldl_append]
  rw [pinned, foldl_address_of_builtin _ (by decide) homeManager (fitsLine_homeManager isVersion).2
    (by decide) (by decide), foldl_follows _ homeManager, hardwareLines,
    foldl_sources areSources noneBefore, List.nil_append]

/-- The text of a manifest holds the statements of its managed lines. -/
theorem statements_text {model : Model}
    (noMarker : ∀ marker ∈ [Managed.beginMarker, Managed.endMarker],
      ¬ marker <:+: model.system.hostname.toList)
    (isVersion : Nix.IsVersion model.nixVersion.toList) (areSources : AreSources model.sources) :
    statements (text model) = said (regionLines model) := by
  -- All lines between the markers fit, and only the name of the machine stands before them.
  have fit : AllFit (indent (indent (line notice ++ regionLines model))) := by
    rw [allFit_indent, allFit_indent, allFit_append]
    exact ⟨allFit_notice, allFit_regionLines isVersion areSources⟩
  rw [text, lines_eq, statements_render _ 2 (fun marker isMarker within => noMarker marker
    isMarker (infix_hostname_of_infix_render_opening isMarker within)) fit, said_indent, said_indent,
    said_append, said_notice, List.nil_append]

/-- The text of a manifest says for which channel its version stands, and which sources a machine has. -/
theorem read_text_of_isVersion {model : Model} (base : Model)
    (noMarker : ∀ marker ∈ [Managed.beginMarker, Managed.endMarker],
      ¬ marker <:+: model.system.hostname.toList)
    (isVersion : Nix.IsVersion model.nixVersion.toList) (areSources : AreSources model.sources) :
    read (text model) base =
      { base with
        nixVersion := String.ofList (Nix.fullName model.nixVersion.toList)
        sources := model.sources } := by
  obtain ⟨statement, single, -⟩ :=
    said_address (by decide) named_builtin.1 (fitsLine_packages isVersion).2
  -- Without statements the manifest would be taken for one that was never generated.
  obtain ⟨rest, found⟩ : ∃ rest, statements (text model) = statement :: rest := by
    rw [statements_text noMarker isVersion areSources]
    simp only [regionLines, said_append, single, List.append_assoc, List.singleton_append]
    exact ⟨_, rfl⟩
  have progress := foldl_regionLines base.nixVersion isVersion areSources
  rw [← statements_text noMarker isVersion areSources, found] at progress
  rw [read, found]
  dsimp only
  rw [progress]

/-- The text of a manifest says which release and which sources a machine has. -/
theorem read_text {model : Model} (base : Model) (hostname : FitsLine model.system.hostname.toList)
    (channel : Nix.IsChannel model.nixVersion.toList) (areSources : AreSources model.sources) :
    read (text model) base =
      { base with nixVersion := model.nixVersion, sources := model.sources } := by
  -- The channel's full name is the channel itself, and is read back as such.
  rw [read_text_of_isVersion base hostname.noMarker channel.isVersion areSources,
    channel.fullName_eq_self, String.ofList_toList]

/-- A manifest without sources of the user's, for a machine whose name does not look like a marker. -/
structure PinsOnly (model : Model) : Prop where
  noSources : model.sources = []
  noMarker : ∀ marker ∈ [Managed.beginMarker, Managed.endMarker],
    ¬ marker <:+: model.system.hostname.toList

/-- A manifest without sources says for which channel its version stands, and nothing else. -/
theorem PinsOnly.nixVersion_read {model : Model} (pinsOnly : PinsOnly model) (base : Model)
    (isVersion : Nix.IsVersion model.nixVersion.toList) :
    (read (text model) base).nixVersion.toList = Nix.fullName model.nixVersion.toList := by
  -- Without sources there are no names to be kept apart.
  have areSources : AreSources model.sources := by
    rw [pinsOnly.noSources]
    exact ⟨List.forall_mem_nil _, List.Pairwise.nil⟩
  rw [read_text_of_isVersion base pinsOnly.noMarker isVersion areSources, String.toList_ofList]

/--
The version read from a manifest pins the branches and the release that the written version pins.

A manifest with that version is read back as it is.
-/
theorem pins_same_release {model : Model} (pinsOnly : PinsOnly model) (base : Model)
    (isVersion : Nix.IsVersion model.nixVersion.toList) :
    let written := model.nixVersion.toList
    let found := (read (text model) base).nixVersion
    Nix.packagesBranch found.toList = Nix.packagesBranch written ∧
      Nix.homeManagerBranch found.toList = Nix.homeManagerBranch written ∧
      Nix.stateVersion found.toList = Nix.stateVersion written ∧
      ∀ again other : Model, PinsOnly again → again.nixVersion = found →
        (read (text again) other).nixVersion = found := by
  intro written found
  have full : found.toList = Nix.fullName written := pinsOnly.nixVersion_read base isVersion
  obtain ⟨packages, homeManager, release⟩ := isVersion.pins_fullName
  rw [full]
  refine ⟨packages, homeManager, release, ?_⟩
  intro again other pinsAgain same
  -- The version that was found is a full name already, which stands for itself.
  have channel : Nix.IsChannel again.nixVersion.toList := by
    rw [same, full]
    exact isVersion.isChannel_fullName
  apply String.toList_inj.1
  rw [pinsAgain.nixVersion_read other channel.isVersion, channel.fullName_eq_self, same]

/-- The initial model with another version to follow. -/
def modelAt (version : String) : Model :=
  { Model.initial with nixVersion := version }

/-- A release that is named by its branch is read back as its channel, with the same branches. -/
theorem pins_same_release_of_branch :
    PinsOnly (modelAt "release-24.05") ∧ Nix.IsVersion "release-24.05".toList ∧
      (read (text (modelAt "release-24.05")) .initial).nixVersion = "nixos-24.05" ∧
      Nix.packagesBranch "nixos-24.05".toList = Nix.packagesBranch "release-24.05".toList ∧
      Nix.homeManagerBranch "nixos-24.05".toList = Nix.homeManagerBranch "release-24.05".toList ∧
      Nix.stateVersion "nixos-24.05".toList = Nix.stateVersion "release-24.05".toList ∧
      (read (text (modelAt "nixos-24.05")) .initial).nixVersion = "nixos-24.05" := by
  have pinsOnly (version : String) : PinsOnly (modelAt version) := by
    -- The name of the machine has no hash sign.
    have fits : FitsLine Model.initial.system.hostname.toList := IsPlain.fits (by decide)
    exact ⟨rfl, fits.noMarker⟩
  have isVersion : Nix.IsVersion (modelAt "release-24.05").nixVersion.toList := by
    refine ⟨List.all_eq_true.1 (by decide), fun number whole => ?_⟩
    have parts : "release-24.05".toList = "release-".toList ++ "24.05".toList := by decide
    have same : "24.05".toList = number := List.append_cancel_left (parts.symm.trans whole)
    rw [← same]
    decide
  -- The release that is read is computed from the name of the branch.
  have found : (read (text (modelAt "release-24.05")) .initial).nixVersion = "nixos-24.05" := by
    apply String.toList_inj.1
    rw [(pinsOnly "release-24.05").nixVersion_read .initial isVersion]
    decide
  obtain ⟨packages, homeManager, release, again⟩ :=
    pins_same_release (pinsOnly "release-24.05") .initial isVersion
  rw [found] at packages homeManager release again
  exact ⟨pinsOnly _, isVersion, found, packages, homeManager, release,
    again (modelAt "nixos-24.05") .initial (pinsOnly _) rfl⟩

/-- Whatever a manifest says, the machine and its users stay as they are. -/
theorem read_settings (text : List Char) (model : Model) :
    (read text model).system = model.system ∧ (read text model).users = model.users := by
  rw [read]
  -- Only the version and the sources are written, and those only if a release was found.
  split
  · exact ⟨rfl, rfl⟩
  · exact ⟨rfl, rfl⟩

end NixKeeper.Files.Manifest
