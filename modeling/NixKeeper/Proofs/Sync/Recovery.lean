import NixKeeper.Proofs.Sync.Reimport

/-!
What is left of a model when its snapshot is lost.

The files are then read into the initial model. What they say is added to it: nothing that the initial
model has is taken away, so its packages, its service and, under another placeholder name, its user
stay.
-/

namespace NixKeeper

namespace Files

variable {renames : Renames} {placeholder : String}

open SystemFile

/-- Packages that are read are added behind those that are there. -/
theorem foldl_withPackage {packages : List Package} (distinct : DistinctBy Package.name packages)
    (known : List Package) :
    packages.foldl withPackage known =
      known ++ (newTo Package.name Package.name known packages).map imported := by
  -- A package that is there already is not revised by one of its name.
  have unchanged : revised Package.name Package.name (fun _ known => known) packages = id := by
    funext package
    rw [revised]
    split
    · rfl
    · rfl
  have keeps (entry item : Package) : Package.name ((fun _ known => known) entry item) = item.name :=
    rfl
  have named (package : Package) : (imported package).name = package.name := rfl
  rw [foldl_entered keeps named distinct, unchanged, List.map_id]

/-- Services that are read change those of their names and are else added. -/
theorem foldl_withService {services : List Service} (distinct : DistinctBy Service.name services)
    (known : List Service) :
    services.foldl withService known =
      known.map (revised Service.name Service.name reconfigured services) ++
        (newTo Service.name Service.name known services).map configured := by
  have keeps (service known : Service) : (reconfigured service known).name = known.name := rfl
  have named (service : Service) : (configured service).name = service.name := rfl
  -- Known services are set anew and keep their places, and the others go to the end.
  exact foldl_entered keeps named distinct known

/-- What the generated files say about packages, services and the names of users. -/
theorem readFiles_generate_of_systemFits {model base : Model} (fits : SystemFits renames model)
    (distinct : DistinctBy Service.name base.system.services) :
    (readFiles renames placeholder (generate renames model) base).system.packages =
        model.system.packages.foldl withPackage base.system.packages ∧
      (readFiles renames placeholder (generate renames model) base).system.services =
        (model.system.services.filter (·.enabled)).foldl withService base.system.services ∧
      (readFiles renames placeholder (generate renames model) base).users.map (·.username) =
        ((distinctUsers model.users).foldl (withUser placeholder) base.users).map
          (·.username) := by
  -- The manifest and the home say nothing about packages, services and names.
  obtain ⟨sameSystem, sameUsers⟩ := Manifest.read_settings (Manifest.text model) base
  obtain ⟨found, preset⟩ := exists_presetRead model.system
  have system := @SystemFile.read_text renames placeholder model
    (Manifest.read (Manifest.text model) base) found fits preset (sameSystem ▸ distinct)
  simp only [readFiles, FileKind.all, List.foldl_cons, List.foldl_nil, read, generate, system]
  refine ⟨?_, ?_, ?_⟩
  · rw [Home.read, laidOver, sameSystem]
  · rw [Home.read, laidOver, sameSystem]
  · rw [Home.usernames_read, laidOver, sameUsers]

/-- The packages that are found without a snapshot: the initial ones and behind them new ones. -/
def recoveredPackages (packages : List Package) : List Package :=
  -- The packages of the default model come first, whether or not they were in the files.
  System.initial.packages ++
    (newTo Package.name Package.name System.initial.packages packages).map imported

/-- The services that are found without a snapshot: the initial one, which may be changed, and new ones. -/
def recoveredServices (services : List Service) : List Service :=
  let switchedOn := services.filter (·.enabled)
  -- The services of the default model come first, as the files have set them.
  System.initial.services.map (revised Service.name Service.name reconfigured switchedOn) ++
    (newTo Service.name Service.name System.initial.services switchedOn).map configured

/-- The names of the users that are found without a snapshot; only a placeholder gives way to others. -/
def recoveredNames (placeholder : String) (users : List User) : List String :=
  -- The placeholder stays unless the settings name it as the one to be replaced.
  if placeholder = placeholderName then users.map (·.username)
  else placeholderName ::
    (newTo User.username User.username Model.initial.users users).map (·.username)

/-- The users of a machine are read into the initial model. -/
theorem usernames_foldl_withUser_initial {users : List User} (nonempty : users ≠ [])
    (distinct : Distinct users)
    (settled : placeholder = placeholderName → OwnerSettled placeholder users) :
    (users.foldl (withUser placeholder) Model.initial.users).map (·.username) =
      recoveredNames placeholder users := by
  obtain ⟨first, rest, rfl⟩ := List.exists_cons_of_ne_nil nonempty
  rw [recoveredNames]
  -- Only under the usual placeholder name the initial user gives way.
  split
  · rename_i usual
    have alone := (settled usual).alone (fun _ among => among) distinct
    rw [Model.initial, foldl_withUser_placeholder distinct usual.symm alone, List.map_cons,
      List.map_cons, List.map_map]
    rfl
  · rename_i other
    have isSettled : Settled placeholder Model.initial.users := by
      refine ⟨by simp [Model.initial], fun only single => ?_⟩
      obtain rfl := List.singleton_inj.1 single
      exact Ne.symm other
    have named : (fun user : User => user.username) ∘
        revised User.username User.username withAccount (first :: rest) = User.username := by
      funext user
      rw [Function.comp_apply, revised]
      split
      · rfl
      · rfl
    have keeps : Distinct Model.initial.users := List.pairwise_singleton _ _
    have sameName (user known : User) : (withAccount user known).username = known.username := rfl
    have ownName (user : User) : (account user).username = user.username := rfl
    rw [foldl_withUser_of_settled keeps isSettled, foldl_entered sameName ownName distinct,
      List.map_append, List.map_map, named, List.map_map]
    rfl

end Files

/-- A valid model has a user. -/
theorem Model.users_ne_nil {model : Model} (valid : model.validate = .ok ()) : model.users ≠ [] := by
  -- Validity asks for a user first.
  intro empty
  rw [Model.validate, empty] at valid
  cases valid

namespace Session

variable {session : Session Memory} {model : Model}

/-- Without a snapshot a session finds what the generated files say, added to the initial model. -/
theorem exists_load_without_snapshot (faultless : session.store.Faultless)
    (json : session.snapshotPath.format = .ok .json) (valid : model.validate = .ok ())
    (noEnd : ¬ Managed.endMarker <:+: model.system.hostname.toList) :
    ∃ report after hardware, session.sync model false = (.ok report, after) ∧ report.success = true ∧
      (withSettings (after.store.without after.snapshotPath) after.root after.settings).load.1 =
        .ok ⟨(Files.readFiles session.renames session.settings.defaultUsername
          (Files.generate session.renames model) .initial).withHardwareFile hardware, .imported⟩ := by
  obtain ⟨report, middle, store, checksum, synced, success, wrote, saved⟩ :=
    exists_synced faultless json valid
  -- What is left is opened again, with nothing remembered.
  let left := store.without session.snapshotPath
  let opened : Session Memory := { session with store := left, checksum := none }
  have leftFaultless : left.Faultless := saved.faultless.without _
  -- The snapshot is none of the files, so they are all still there.
  have holds (kind : FileKind) : left.file? (session.filePath kind) =
      some (session.plannedContent model kind (session.store.file? (session.filePath kind))) := by
    have within := fileTarget_mem_targets session model kind
    have apart : session.filePath kind ≠ session.snapshotPath := path_ne_snapshotPath json within
    rw [Memory.file?_without, if_neg apart]
    exact saved.file?_target json wrote within
  have unread : opened.readSnapshot = (.ok none, opened) := by
    have removed : left.file? opened.snapshotPath = none := by
      rw [Memory.file?_without]
      exact if_pos rfl
    rw [readSnapshot, leftFaultless.readOptional, removed]
  have present : opened.hasFiles = true := by
    refine List.any_eq_true.2 ⟨.system, by decide, ?_⟩
    rw [leftFaultless.contains]
    exact Option.isSome_iff_exists.2 ⟨_, holds .system⟩
  have imported := @importFiles_of_planned session model left none leftFaultless noEnd holds .initial
  refine ⟨report, _, left.file? session.hardwarePath, synced, success, ?_⟩
  change opened.load.1 = _
  rw [load, unread]
  dsimp only
  rw [present, if_pos rfl]
  exact congrArg (fun read => Except.map (Loaded.mk · .imported) read) imported

/-- Without a snapshot the packages, the services and the users of the files join the initial ones. -/
theorem exists_recovered (faultless : session.store.Faultless)
    (json : session.snapshotPath.format = .ok .json) (valid : model.validate = .ok ())
    (fits : Files.SystemFile.SystemFits session.renames model) :
    ∃ report after loaded, session.sync model false = (.ok report, after) ∧ report.success = true ∧
      (withSettings (after.store.without after.snapshotPath) after.root after.settings).load.1 =
        .ok loaded ∧
      loaded.source = .imported ∧
      loaded.model.system.packages =
        model.system.packages.foldl Files.withPackage System.initial.packages ∧
      loaded.model.system.services =
        (model.system.services.filter (·.enabled)).foldl Files.SystemFile.withService
          System.initial.services ∧
      loaded.model.users.map (·.username) =
        ((Files.SystemFile.distinctUsers model.users).foldl
          (Files.SystemFile.withUser session.settings.defaultUsername) Model.initial.users).map
            (·.username) := by
  obtain ⟨report, after, hardware, synced, success, loaded⟩ :=
    exists_load_without_snapshot faultless json valid (fits.hostname.noMarker _ (by simp))
  obtain ⟨packages, services, names⟩ :=
    @Files.readFiles_generate_of_systemFits session.renames session.settings.defaultUsername model
      .initial fits (List.pairwise_singleton _ _)
  -- What the files say is not looked into any further, and the hardware file adds nothing to these.
  generalize Files.readFiles _ _ _ _ = read at loaded packages services names
  obtain ⟨text, same⟩ := read.exists_withHardwareFile hardware
  rw [same] at loaded
  exact ⟨report, after, _, synced, success, loaded, rfl, packages, services, names⟩

/--
Without its snapshot a model is found again as far as its files tell, added to the initial model.

Services are found with their options; only the service of the initial model keeps options of its own,
and it is switched on also where the model has it switched off. A user under the placeholder name may
lose it to another one, so nothing is said about the users where such a user comes before others.
-/
theorem load_without_snapshot (faultless : session.store.Faultless)
    (json : session.snapshotPath.format = .ok .json) (valid : model.validate = .ok ())
    (fits : Files.SystemFile.SystemFits session.renames model)
    (services : Files.DistinctBy Service.name model.system.services)
    (users : Files.SystemFile.Distinct model.users) :
    ∃ report after loaded, session.sync model false = (.ok report, after) ∧ report.success = true ∧
      (withSettings (after.store.without after.snapshotPath) after.root after.settings).load.1 =
        .ok loaded ∧
      loaded.source = .imported ∧
      loaded.model.system.packages = Files.recoveredPackages model.system.packages ∧
      loaded.model.system.services = Files.recoveredServices model.system.services ∧
      ((session.settings.defaultUsername = placeholderName →
          Files.OwnerSettled session.settings.defaultUsername model.users) →
        loaded.model.users.map (·.username) =
          Files.recoveredNames session.settings.defaultUsername model.users) := by
  obtain ⟨report, after, loaded, synced, success, load, source, packages, found, names⟩ :=
    exists_recovered faultless json valid fits
  -- What is read back is told by folds over the lists of the model.
  refine ⟨report, after, loaded, synced, success, load, source, packages.trans ?_, found.trans ?_,
    ?_⟩
  · exact Files.foldl_withPackage fits.arePackages.distinct _
  · exact Files.foldl_withService (services.filter _) _
  · intro settled
    refine names.trans ?_
    rw [Files.distinctUsers_of_distinct users]
    exact Files.usernames_foldl_withUser_initial (Model.users_ne_nil valid) users settled

/-- The household is found again: behind the initial packages and services come its own, and its people. -/
theorem load_without_snapshot_householdModel :
    let session := withSettings (Memory.ofFiles (.ofList [("etc/home.nix", "edited")])) (.ofText "etc")
      .initial
    ∃ report after loaded, session.sync Files.householdModel false = (.ok report, after) ∧
      report.success = true ∧
      (withSettings (after.store.without after.snapshotPath) after.root after.settings).load.1 =
        .ok loaded ∧
      loaded.source = .imported ∧
      loaded.model.system.packages.map (·.name) = ["vim", "git", "wget", "ripgrep"] ∧
      (loaded.model.system.services.map fun service => (service.name, service.options.entries)) =
        [("services.openssh", [("settings.PasswordAuthentication", .bool false),
          ("settings.PermitRootLogin", .text "no"), ("settings.X11Forwarding", .bool true)]),
          ("services.printing", [])] ∧
      loaded.model.users.map (·.username) = ["ada", "bob"] := by
  intro session
  obtain ⟨report, after, loaded, synced, success, load, source, packages, services, users⟩ :=
    @load_without_snapshot session Files.householdModel ⟨rfl, rfl⟩ (by decide)
      (by decide) Files.isReadable_householdModel.system
      Files.isReadable_householdModel.services Files.distinct_householdModel
  -- The first user is not named like the placeholder, whose place it takes.
  have settled : Files.OwnerSettled placeholderName Files.householdModel.users := by
    simp [Files.OwnerSettled, Files.householdModel, User.named, placeholderName]
  refine ⟨report, after, loaded, synced, success, load, source, ?_, ?_, ?_⟩
  · rw [packages]
    decide
  · rw [services]
    decide
  · exact (users fun _ => settled).trans (by decide)

/-- A machine without packages and services, of a user who has a name. -/
def strangerModel : Model :=
  { Files.bareModel with users := [.named "ada"] }

/-- The settings of the stranger can be read back. -/
theorem systemFits_strangerModel : Files.SystemFile.SystemFits .builtin strangerModel := by
  have account : Files.SystemFile.IsAccount (.named "ada") :=
    ⟨⟨by decide, List.all_eq_true.1 (by decide)⟩, Files.IsPlain.fits (by decide),
      List.forall_mem_nil _, Files.IsPlain.fits (by decide), by decide, by decide, nofun⟩
  -- Of the other settings, those that are not empty are as in the initial model.
  exact
    { Files.isReadable_initial.system with
      arePackages := ⟨List.forall_mem_nil _, .nil⟩
      areServices := List.forall_mem_nil _
      areAccounts := List.forall_mem_singleton.2 account }

/-- A stranger is found again with the initial packages and service, and another name beside the own one. -/
theorem load_without_snapshot_strangerModel :
    let session := withSettings (Memory.ofFiles .empty) (.ofText "etc")
      { Settings.initial with defaultUsername := "owner" }
    Files.SystemFile.SystemFits session.renames strangerModel ∧
    strangerModel.validate = .ok () ∧ strangerModel.system.packages = [] ∧
      strangerModel.system.services = [] ∧ strangerModel.users.map (·.username) = ["ada"] ∧
      ∃ report after loaded, session.sync strangerModel false = (.ok report, after) ∧
        report.success = true ∧
        (withSettings (after.store.without after.snapshotPath) after.root after.settings).load.1 =
          .ok loaded ∧
        loaded.source = .imported ∧
        loaded.model.system.packages.map (·.name) = ["vim", "git", "wget"] ∧
        loaded.model.system.services.map (·.name) = ["services.openssh"] ∧
        loaded.model.users.map (·.username) = ["nixuser", "ada"] := by
  intro session
  have builtin : session.renames = .builtin := rfl
  have fits : Files.SystemFile.SystemFits session.renames strangerModel :=
    builtin ▸ systemFits_strangerModel
  have valid : strangerModel.validate = .ok () := by decide
  obtain ⟨report, after, loaded, synced, success, load, source, packages, services, users⟩ :=
    @exists_recovered session strangerModel ⟨rfl, rfl⟩ (by decide) valid fits
  -- The initial user does not bear the placeholder name of these settings, and so stays.
  have names : loaded.model.users.map (·.username) = ["nixuser", "ada"] := by
    rw [users]
    rfl
  -- No packages and services are read back, so what is found is what the initial model has.
  have packageNames : loaded.model.system.packages.map (·.name) = ["vim", "git", "wget"] := by
    rw [packages]
    rfl
  have serviceNames : loaded.model.system.services.map (·.name) = ["services.openssh"] := by
    rw [services]
    rfl
  exact ⟨fits, valid, rfl, rfl, rfl, report, after, loaded, synced, success, load, source,
    packageNames, serviceNames, names⟩

end Session

end NixKeeper
