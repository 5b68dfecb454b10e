import NixKeeper.Proofs.Files.Home
import NixKeeper.Proofs.Files.Manifest
import NixKeeper.Proofs.Files.SystemFile.Reading
import NixKeeper.Proofs.Model.Relocation
import NixKeeper.Proofs.Model.Resolution

/-! The generated files of a machine say everything about it that they can say. -/

namespace NixKeeper.Files

variable {renames : Renames} {placeholder : String}

open SystemFile Home

/-- A model whose generated files can be read back. -/
structure IsReadable (renames : Renames) (model : Model) : Prop where
  channel : Nix.IsChannel model.nixVersion.toList
  areSources : Manifest.AreSources model.sources
  presets : ∀ preset ∈ model.system.hardwarePreset, IsPreset preset
  system : SystemFits renames model
  services : DistinctBy Service.name model.system.services
  home : HomeFits renames (homeOwner model)

/-- The model with what the home of an owner says about its first user. -/
def withOwnerHome (owner : User) (model : Model) : Model :=
  withUsers model (model.users.modify 0 fun user => withProgram (withHome owner user) (program owner))

/-- A machine with what the generated files of another one say. -/
def updated (placeholder : String) (model base : Model) : Model :=
  -- The manifest comes first, then the system file, and the home file of the owner last.
  withOwnerHome (homeOwner model) (laidOver placeholder model.system.hardwarePreset model
    { base with nixVersion := model.nixVersion, sources := model.sources })

/-- The generated files, laid over a model whose services have different names. -/
theorem readFiles_generate {model base : Model} (readable : IsReadable renames model)
    (distinct : DistinctBy Service.name base.system.services) :
    readFiles renames placeholder (generate renames model) base = updated placeholder model base := by
  have manifest := Manifest.read_text base readable.system.hostname readable.channel
    readable.areSources
  have preset : PresetRead model.system model.system.hardwarePreset :=
    fun _ _ _ _ => after_importLines readable.presets
  have system := @SystemFile.read_text renames placeholder model
    { base with nixVersion := model.nixVersion, sources := model.sources } _ readable.system preset
    distinct
  have home : Home.readUser renames (Home.text renames (homeOwner model) model.nixVersion) =
      fun user => withProgram (withHome (homeOwner model) user) (program (homeOwner model)) :=
    funext fun user => readUser_text user model.nixVersion readable.home
  -- The three files are read in their order, each into what the ones before it have said.
  simp only [readFiles, FileKind.all, List.foldl_cons, List.foldl_nil, read, generate, manifest]
  rw [system, Home.read, home]
  rfl

/-- A model that knows nothing of what files say but the placeholder name of its single user. -/
structure AwaitsOwner (placeholder : String) (owner : User) (base : Model) : Prop where
  packages : base.system.packages = []
  services : base.system.services = []
  preset : base.system.hardwarePreset = none
  swapSize : base.system.swapSize = 0
  users : base.users = [owner]
  named : owner.username = placeholder
  ownPackages : owner.packages = []
  gitName : owner.gitName = none
  gitEmail : owner.gitEmail = none
  password : owner.hashedPassword = none

/-- The first user as the generated files describe one: a shell without a program is the usual one. -/
def describedOwner (user : User) : User :=
  -- Packages lose their descriptions.
  { user with
    packages := user.packages.map imported
    shell := if (shellProgram? user.shell.toList).isSome then user.shell else "pkgs.bash" }

/-- The users as the generated files describe them, of each name the first. -/
def describedUsers (placeholder : User) (users : List User) : List User :=
  match distinctUsers users with
  | first :: rest => describedOwner first :: rest.map account
  -- The home of nobody in particular switches the usual shell on.
  | [] => [withProgram placeholder "bash".toList]

/-- A machine as its generated files describe it. -/
def described (owner : User) (base model : Model) : Model :=
  -- What is written nowhere keeps its old value or is forgotten.
  { model with
    system := { model.system with
      hardwareConfig := base.system.hardwareConfig
      packages := model.system.packages.map imported
      services := (model.system.services.filter (·.enabled)).map configured }
    users := describedUsers owner model.users }

/-- The program of a shell is that of the shell itself, so the shell stays. -/
theorem withProgram_program (user : User) :
    withProgram user (program user) = { user with
      shell := if (shellProgram? user.shell.toList).isSome then user.shell else "pkgs.bash" } := by
  rw [withProgram, program]
  -- Without a program of its own the shell gives way to the usual one.
  cases found : shellProgram? user.shell.toList with
  | none =>
    have usual : knownShells.contains (String.ofList "bash".toList) = true := by decide
    rw [Option.getD_none, if_pos usual, withShell, found]
    rfl
  | some name =>
    rw [Option.getD_some, withShell, found, if_pos rfl]
    exact ite_self user

/-- The account of the first user with the home of the first user is all that is known. -/
theorem withProgram_withHome_account {user : User} (distinct : DistinctBy Package.name user.packages) :
    withProgram (withHome user (account user)) (program user) = describedOwner user := by
  -- What the account leaves open is filled in by the home.
  have home : withHome user (account user) =
      { user with packages := user.packages.map imported } := by
    rw [withHome, account, foldl_withPackage_nil distinct, Option.or_none, Option.or_none]
  rw [home, describedOwner]
  exact withProgram_program { user with packages := user.packages.map imported }

/-- Services that are read where there are none are those that are switched on. -/
theorem foldl_withService_nil {services : List Service} (distinct : DistinctBy Service.name services) :
    (services.filter (·.enabled)).foldl withService [] =
      (services.filter (·.enabled)).map configured := by
  -- No service is known before the first is entered.
  have none : ∀ service ∈ services.filter (·.enabled), ∀ other ∈ ([] : List Service),
      other.name ≠ service.name := fun _ _ _ within => absurd within List.not_mem_nil
  exact foldl_entered_of_new (fun _ _ => rfl) (fun _ => rfl) (distinct.filter _) none

/-- Only a user of the placeholder name may take the placeholder's place, and only alone. -/
def OwnerSettled (placeholder : String) (users : List User) : Prop :=
  ∀ first ∈ users.head?, first.username = placeholder → ∀ user ∈ users, user.username = placeholder

/-- A first user under the placeholder name is followed by none of another name. -/
theorem OwnerSettled.alone {first : User} {rest more : List User}
    (settled : OwnerSettled placeholder (first :: rest)) (within : ∀ user ∈ more, user ∈ rest)
    (distinct : Distinct (first :: more)) (isPlaceholder : first.username = placeholder) :
    more = [] := by
  cases more with
  | nil => rfl
  | cons second others =>
    -- The placeholder name of the first user would be that of the second one as well.
    have same := settled first rfl isPlaceholder second
      (List.mem_cons_of_mem _ (within second List.mem_cons_self))
    have apart := (List.pairwise_cons.1 distinct).1 second List.mem_cons_self
    exact absurd (isPlaceholder.trans same.symm) apart

/-- The users are read where a placeholder stands alone. -/
theorem modify_foldl_withUser {base model : Model} {owner : User}
    (awaits : AwaitsOwner placeholder owner base) (readable : IsReadable renames model)
    (settled : OwnerSettled placeholder model.users) :
    ((distinctUsers model.users).foldl (withUser placeholder) base.users).modify 0
        (fun user => withProgram (withHome (homeOwner model) user) (program (homeOwner model))) =
      describedUsers owner model.users := by
  rw [awaits.users, describedUsers]
  cases users : model.users with
  | nil =>
    have nobody : homeOwner model = .named placeholderName := by
      rw [homeOwner, users]
    -- The home of nobody has no packages and no identity.
    have unknown : withHome (.named placeholderName) owner = owner := rfl
    have usual : program (.named placeholderName) = "bash".toList := by decide
    rw [nobody, usual]
    exact congrArg (fun user => [withProgram user _]) unknown
  | cons first rest =>
    have isOwner : homeOwner model = first := by
      rw [homeOwner, users]
    obtain ⟨more, kept, within, distinct⟩ := exists_distinctUsers_cons first rest
    rw [users] at settled
    have alone := settled.alone within distinct
    -- Of the placeholder nothing but its place is left.
    have taken : withAccount first { owner with username := first.username } = account first := by
      rw [withAccount, account, awaits.ownPackages, awaits.gitName, awaits.gitEmail, awaits.password,
        Option.or_none]
    have packages : DistinctBy Package.name first.packages := isOwner ▸ readable.home.arePackages.distinct
    rw [kept, foldl_withUser_placeholder distinct awaits.named alone, taken, isOwner]
    dsimp only
    rw [List.modify_zero_cons, withProgram_withHome_account packages]

/--
The generated files of a machine describe it.

They are read into a model that knows nothing yet but a placeholder for its owner. Of a service that
is switched off they say nothing, and of users of one name they describe the first.
-/
theorem readFiles_generate_of_awaitsOwner {base model : Model} {owner : User}
    (awaits : AwaitsOwner placeholder owner base) (readable : IsReadable renames model)
    (settled : OwnerSettled placeholder model.users) :
    readFiles renames placeholder (generate renames model) base = described owner base model := by
  have distinct : DistinctBy Service.name base.system.services := awaits.services ▸ .nil
  have users := modify_foldl_withUser awaits readable settled
  -- A swap file of no size is not written, and the model that is read into has none either.
  have size : (if model.system.swapSize = 0 then base.system.swapSize else model.system.swapSize) =
      model.system.swapSize := by
    rw [awaits.swapSize]
    split
    · exact Eq.symm ‹_›
    · rfl
  rw [readFiles_generate readable distinct]
  simp only [updated, withOwnerHome, withUsers, laidOver, size, users, awaits.preset, awaits.packages,
    awaits.services, Option.or_none, foldl_withPackage_nil readable.system.arePackages.distinct,
    foldl_withService_nil readable.services]
  rfl

/-- A word that is no former name of a package can stand in a list. -/
theorem isPackageName_of_unmoved {name : String} (nonempty : name.toList ≠ [])
    (members : name.toList.all isPackageChar = true) (notWith : name ≠ "with")
    (bare : ¬ "pkgs.".toList <+: name.toList)
    (unmoved : ∀ former ∈ ["nerd-fonts", "nerdfonts", "noto-fonts-cjk", "noto-fonts-emoji"],
      former ≠ name) : IsPackageName .builtin name := by
  refine ⟨nonempty, List.all_eq_true.1 members, notWith,
    Renames.package_of_unmoved bare fun entry among => unmoved entry.1 ?_⟩
  -- The former names are the keys of the table.
  rw [Renames.entries_builtin_packages] at among
  exact List.mem_map_of_mem (f := Prod.fst) among

/-- A service that is none of the graphical ones can be read back if few points stand in its path. -/
theorem isService_of_unmoved {service : Service} (isPath : IsServicePath service.name.toList)
    (few : service.name.toList.count '.' < 2)
    (unmoved : ¬ "services.xserver.".toList <+: service.name.toList)
    (options : ∀ entry ∈ service.options.entries, IsOption .builtin service.name entry) :
    IsService .builtin service := by
  have current : Renames.builtin.service service.name = service.name := by
    refine Renames.service_of_unmoved fun entry among same => unmoved ?_
    -- Every service that has moved was one of the graphical ones.
    have graphical : ∀ entry ∈ Renames.builtin.services.entries,
        "services.xserver.".toList <+: entry.1.toList := by
      rw [Renames.entries_builtin_services]
      decide
    exact same ▸ graphical entry among
  -- The words before a hardware module have three points.
  refine ⟨isPath, current, not_infix_of_count (by omega), fun _ => not_infix_of_count ?_, options⟩
  rw [List.count_append, List.count_singleton_self]
  omega

/-- The packages of the initial model stand in a list as they are. -/
theorem arePackages_initial : ArePackages .builtin System.initial.packages := by
  refine ⟨?_, by simp [DistinctBy, System.initial]⟩
  simp only [System.initial, List.forall_mem_cons]
  -- The packages of the default model are gone through one by one.
  refine ⟨?_, ?_, ?_, List.forall_mem_nil _⟩
  all_goals exact isPackageName_of_unmoved (by decide) (by decide) (by decide) (by decide) (by decide)

/-- The service of the initial model can be read back, with its options. -/
theorem isService_initial : ∀ service ∈ System.initial.services, IsService .builtin service := by
  intro service within
  have isOption : ∀ entry ∈ service.options.entries, IsOption .builtin service.name entry := by
    intro entry member
    -- The options are known as a list, not as the table that was built from it.
    have among : entry ∈ System.initial.services.flatMap (·.options.entries) :=
      List.mem_flatMap.2 ⟨service, within, member⟩
    obtain rfl := List.mem_singleton.1 within
    rw [System.options_initial, List.mem_cons, List.mem_singleton] at among
    rcases among with rfl | rfl
    · exact ⟨by decide, by decide, Renames.builtin_option_of_ne (by decide), trivial, trivial⟩
    · exact ⟨by decide, by decide, Renames.builtin_option_of_ne (by decide), trivial,
        IsPlain.fits (by decide)⟩
  obtain rfl := List.mem_singleton.1 within
  exact isService_of_unmoved ⟨⟨'o', "penssh".toList, by decide⟩, List.all_eq_true.1 (by decide)⟩
    (by decide) (by decide) isOption

/-- The generated files of the initial model can be read back. -/
theorem isReadable_initial : IsReadable .builtin .initial := by
  have user : IsAccount { User.named placeholderName with
      description := "Primary User", extraGroups := ["networkmanager", "wheel"] } := by
    refine ⟨⟨by decide, List.all_eq_true.1 (by decide)⟩, IsPlain.fits (by decide), ?_,
      IsPlain.fits (by decide), by decide, by decide, by simp [User.named]⟩
    simp only [List.forall_mem_cons]
    exact ⟨⟨IsPlain.fits (by decide), by decide⟩, ⟨IsPlain.fits (by decide), by decide⟩,
      List.forall_mem_nil _⟩
  -- The features are fixed words, none of which names a hardware module.
  have features : ∀ feature ∈ System.initial.experimentalFeatures, FitsLine feature.toList ∧
      '\\' ∉ feature.toList ∧ ¬ hardwareWords <:+: feature.toList := by
    simp only [System.initial, List.forall_mem_cons]
    exact ⟨⟨IsPlain.fits (by decide), by decide, not_infix_of_count (by decide)⟩,
      ⟨IsPlain.fits (by decide), by decide, not_infix_of_count (by decide)⟩, List.forall_mem_nil _⟩
  have system : SystemFits .builtin .initial :=
    { hostname := IsPlain.fits (by decide)
      timezone := IsPlain.fits (by decide)
      locale := IsPlain.fits (by decide)
      keyboardLayout := IsPlain.fits (by decide)
      preset := by simp [Model.initial, System.initial]
      features
      arePackages := arePackages_initial
      areServices := fun service within => isService_initial service (List.mem_of_mem_filter within)
      areAccounts := by simpa [Model.initial] using user
      layout := by decide }
  have home : HomeFits .builtin (homeOwner .initial) :=
    ⟨IsPlain.fits (by decide), ⟨List.forall_mem_nil _, .nil⟩,
      by simp [homeOwner, Model.initial, User.named], by simp [homeOwner, Model.initial, User.named],
      IsPlain.fits (by decide)⟩
  exact ⟨⟨List.all_eq_true.1 (by decide), by decide, by decide, by decide⟩,
    ⟨List.forall_mem_nil _, .nil⟩, by simp [Model.initial, System.initial], system,
    List.pairwise_singleton _ _, home⟩

/-- A machine that two people share, with a swap file, an address and services of its own. -/
def householdModel : Model :=
  { Model.initial with
    sources := [⟨"home-fleet", "github:fleet/home"⟩]
    system := { System.initial with
      hostname := "desk"
      swapSize := 8
      packages := System.initial.packages ++ [⟨"ripgrep", ""⟩]
      -- One of the services has an option, one has none, and one is switched off.
      services := [
        { Service.named "services.openssh" with
          options := .ofList [("settings.X11Forwarding", .bool true)] },
        .named "services.printing",
        { Service.named "services.tailscale" with enabled := false }] }
    users := [
      { User.named "ada" with
        shell := "pkgs.fish"
        extraGroups := ["wheel"]
        packages := [⟨"jq", ""⟩]
        gitName := some "Ada" },
      { User.named "bob" with hashedPassword := some "$6$salt$hash" }] }

/-- The services of the household have one option among them. -/
theorem options_householdModel : householdModel.system.services.flatMap (·.options.entries) =
    [("settings.X11Forwarding", .bool true)] := by
  -- The table that holds the option is a closed term.
  decide

/-- The services of the household can be read back, with the option. -/
theorem isService_householdModel :
    ∀ service ∈ householdModel.system.services, IsService .builtin service := by
  have isOption : ∀ service ∈ householdModel.system.services, ∀ entry ∈ service.options.entries,
      IsOption .builtin "services.openssh" entry := by
    intro service within entry member
    have among : entry ∈ householdModel.system.services.flatMap (·.options.entries) :=
      List.mem_flatMap.2 ⟨service, within, member⟩
    obtain rfl := List.mem_singleton.1 (options_householdModel ▸ among)
    exact ⟨by decide, by decide, Renames.builtin_option_of_ne (by decide), trivial, trivial⟩
  -- The services without options have none that could be out of place.
  have noOption (name : String) : ∀ entry ∈ (Service.named name).options.entries,
      IsOption .builtin name entry := fun _ within => absurd within List.not_mem_nil
  have openssh := isOption _ List.mem_cons_self
  refine List.forall_mem_cons.2 ⟨?_, List.forall_mem_cons.2 ⟨?_, List.forall_mem_singleton.2 ?_⟩⟩
  · exact isService_of_unmoved ⟨⟨'o', "penssh".toList, by decide⟩, List.all_eq_true.1 (by decide)⟩
      (by decide) (by decide) openssh
  · exact isService_of_unmoved ⟨⟨'p', "rinting".toList, by decide⟩, List.all_eq_true.1 (by decide)⟩
      (by decide) (by decide) (noOption "services.printing")
  · exact isService_of_unmoved ⟨⟨'t', "ailscale".toList, by decide⟩, List.all_eq_true.1 (by decide)⟩
      (by decide) (by decide) (noOption "services.tailscale")

/-- The two users of the household have different names. -/
theorem distinct_householdModel : Distinct householdModel.users := by
  -- There is a single pair to compare.
  simp [Distinct, DistinctBy, householdModel, User.named]

/-- The generated files of the household can be read back. -/
theorem isReadable_householdModel : IsReadable .builtin householdModel := by
  have accounts : ∀ user ∈ householdModel.users, IsAccount user := by
    refine List.forall_mem_cons.2 ⟨?_, List.forall_mem_singleton.2 ?_⟩
    · exact ⟨⟨by decide, List.all_eq_true.1 (by decide)⟩, IsPlain.fits (by decide),
        List.forall_mem_singleton.2 ⟨IsPlain.fits (by decide), by decide⟩, IsPlain.fits (by decide),
        by decide, by decide, nofun⟩
    · refine ⟨⟨by decide, List.all_eq_true.1 (by decide)⟩, IsPlain.fits (by decide),
        List.forall_mem_nil _, IsPlain.fits (by decide), by decide, by decide, ?_⟩
      rintro _ ⟨⟩
      exact IsPlain.fits (by decide)
  have ripgrep : IsPackageName .builtin "ripgrep" :=
    isPackageName_of_unmoved (by decide) (by decide) (by decide) (by decide) (by decide)
  have packages : ArePackages .builtin householdModel.system.packages :=
    ⟨List.forall_mem_append.2 ⟨arePackages_initial.named, List.forall_mem_singleton.2 ripgrep⟩,
      by simp [DistinctBy, householdModel, System.initial]⟩
  -- What the household does not change is as in the initial model.
  have system : SystemFits .builtin householdModel :=
    { isReadable_initial.system with
      hostname := IsPlain.fits (by decide)
      arePackages := packages
      areServices := fun service within =>
        isService_householdModel service (List.mem_of_mem_filter within)
      areAccounts := accounts }
  have jq : IsPackageName .builtin "jq" :=
    isPackageName_of_unmoved (by decide) (by decide) (by decide) (by decide) (by decide)
  have home : HomeFits .builtin (homeOwner householdModel) := by
    refine ⟨IsPlain.fits (by decide), ⟨List.forall_mem_singleton.2 jq, List.pairwise_singleton _ _⟩, ?_,
      nofun, IsPlain.fits (by decide)⟩
    rintro _ ⟨⟩
    exact IsPlain.fits (by decide)
  have source : Manifest.AreSources householdModel.sources :=
    ⟨List.forall_mem_singleton.2 ⟨by decide, List.all_eq_true.1 (by decide), by decide, by decide,
      IsPlain.fits (by decide)⟩, List.pairwise_singleton _ _⟩
  exact ⟨isReadable_initial.channel, source, nofun, system,
    by simp [DistinctBy, householdModel, Service.named], home⟩

/-- The initial model, but without packages and services. -/
def bareModel : Model :=
  { Model.initial with system := { System.initial with packages := [], services := [] } }

/-- The bare model still awaits its owner. -/
theorem awaitsOwner_bareModel :
    AwaitsOwner placeholderName { User.named placeholderName with
      description := "Primary User", extraGroups := ["networkmanager", "wheel"] } bareModel :=
  -- The model is the default one where the conditions look.
  ⟨rfl, rfl, rfl, rfl, rfl, rfl, rfl, rfl, rfl, rfl⟩

/-- The files of the household give a bare model its people, its packages and two of its services. -/
theorem readFiles_generate_householdModel :
    let found := readFiles .builtin placeholderName (generate .builtin householdModel) bareModel
    found = described { User.named placeholderName with
        description := "Primary User", extraGroups := ["networkmanager", "wheel"] } bareModel
        householdModel ∧
      found.users.map (·.username) = ["ada", "bob"] ∧
      found.system.packages.map (·.name) = ["vim", "git", "wget", "ripgrep"] ∧
      found.system.services.map (·.name) = ["services.openssh", "services.printing"] := by
  intro found
  have told : found = _ := readFiles_generate_of_awaitsOwner awaitsOwner_bareModel
    isReadable_householdModel (by simp [OwnerSettled, householdModel, User.named, placeholderName])
  -- The description of the household is short enough to be looked at.
  refine ⟨told, ?_⟩
  rw [told]
  decide

/-- The bare model with a service that is named like the set of hardware modules. -/
def misleadingModel : Model :=
  -- The service has no options, so its name is followed by its switch at once.
  { bareModel with system := { bareModel.system with
    services := [Service.named "services.inputs.nixos-hardware.nixosModules"] } }

/-- The path of the service is current, and the words for a hardware module do not stand in it. -/
theorem misleadingModel_services : ∀ service ∈ misleadingModel.system.services,
    IsServicePath service.name.toList ∧ Renames.builtin.service service.name = service.name ∧
      ¬ hardwareWords <:+: service.name.toList := by
  -- The only service is spelled so that a preset could be read from it.
  refine List.forall_mem_singleton.2 ⟨⟨?_, List.all_eq_true.1 (by decide)⟩, by decide,
    by decide⟩
  exact ⟨'i', "nputs.nixos-hardware.nixosModules".toList, by decide⟩

/-- The line that switches the service on is taken for one that names a module. -/
theorem preset_of_misleadingModel : ∀ base ∈ [bareModel, misleadingModel],
    (readFiles .builtin placeholderName (generate .builtin misleadingModel)
      base).system.hardwarePreset = some "enable" := by
  -- Both files are closed texts, which are read.
  decide +kernel

/--
A service can be taken for a hardware module.

A service without options is switched on by a line in which a point follows its name, and the words
before the name of a hardware module end with a point.
-/
theorem readFiles_generate_misleadingModel :
    (∀ service ∈ misleadingModel.system.services,
      IsServicePath service.name.toList ∧ Renames.builtin.service service.name = service.name ∧
        ¬ hardwareWords <:+: service.name.toList) ∧
    misleadingModel.system.hardwarePreset = none ∧
      (readFiles .builtin placeholderName (generate .builtin misleadingModel)
        bareModel).system.hardwarePreset = some "enable" :=
  -- The service is well formed, so only the missing condition on its name lets the preset in.
  ⟨misleadingModel_services, rfl, preset_of_misleadingModel _ List.mem_cons_self⟩

end NixKeeper.Files
