import NixKeeper.Proofs.Sync.Reload

/-! A model that was synced is not changed by what is read from its own files. -/

namespace NixKeeper

namespace Files

variable {renames : Renames} {placeholder : String} {model : Model}

open SystemFile Home

/-- What is read from a text depends on its statements alone. -/
theorem read_congr {first second : List Char} (same : statements first = statements second)
    (model : Model) (kind : FileKind) :
    read renames placeholder first model kind = read renames placeholder second model kind := by
  -- Each reader begins by taking the statements of the text.
  have home : Home.readUser renames first = Home.readUser renames second := by
    funext user
    rw [Home.readUser, Home.readUser, same]
  cases kind with
  | manifest => rw [read, read, Manifest.read, Manifest.read, same]
  | system => rw [read, read, SystemFile.read, SystemFile.read, same]
  | home => rw [read, read, Home.read, Home.read, home]

/-- Services of a machine that are read again stay as they are, also those that are switched off. -/
theorem foldl_withService_self {services : List Service}
    (distinct : DistinctBy Service.name services) :
    (services.filter (·.enabled)).foldl withService services = services := by
  refine foldl_entered_of_known (fun service among => ⟨service, List.mem_of_mem_filter among, rfl⟩) ?_
  intro service among known within same
  -- A name leads back to the very service that was written.
  obtain rfl := distinct.eq_of_name_eq within (List.mem_of_mem_filter among) same
  have isOn : known.enabled = true := (List.mem_filter.1 among).2
  rw [reconfigured, Table.overlay_self, ← isOn]

/-- Users of different names all have blocks of their own. -/
theorem distinctUsers_of_distinct {users : List User} (distinct : Distinct users) :
    distinctUsers users = users := by
  have each : ∀ (kept rest : List User), Distinct (kept ++ rest) →
      rest.foldl (fun kept user =>
        if kept.any (·.username == user.username) then kept else kept ++ [user]) kept =
          kept ++ rest := by
    intro kept rest
    -- The kept users grow behind, and nobody among them has the next name.
    induction rest generalizing kept with
    | nil => exact fun _ => (List.append_nil kept).symm
    | cons user rest ih =>
      intro distinct
      have new : ∀ other ∈ kept, other.username ≠ user.username := fun other within =>
        (List.pairwise_append.1 distinct).2.2 other within user List.mem_cons_self
      have shape : kept ++ user :: rest = (kept ++ [user]) ++ rest := by simp
      rw [List.foldl_cons, any_eq_false_of_new new, if_neg Bool.false_ne_true, shape]
      exact ih _ (shape ▸ distinct)
  exact each [] users distinct

/-- A user who has a program for a shell is not changed by the user's own home. -/
theorem withProgram_withHome_self {user : User}
    (hasProgram : (shellProgram? user.shell.toList).isSome) :
    withProgram (withHome user user) (program user) = user := by
  have home : withHome user user = user := by
    -- Everything that the home file says is known already.
    rw [withHome, foldl_withPackage_self, Option.or_self, Option.or_self]
  rw [home, withProgram_program, if_pos hasProgram]

/-- A machine is not changed by what its own files say. -/
theorem updated_self (services : DistinctBy Service.name model.system.services)
    (users : Distinct model.users)
    (hasProgram : ∀ first ∈ model.users.head?, (shellProgram? first.shell.toList).isSome) :
    updated placeholder model model = model := by
  -- What the files leave out is found in the model itself.
  have size : (if model.system.swapSize = 0 then model.system.swapSize else model.system.swapSize) =
      model.system.swapSize := ite_self _
  have same : laidOver placeholder model.system.hardwarePreset model model = model := by
    simp only [laidOver, size, Option.or_self, foldl_withPackage_self,
      foldl_withService_self services, distinctUsers_of_distinct users,
      foldl_withUser_self users fun user within => within]
  have home : withOwnerHome (homeOwner model) model = model := by
    rw [withOwnerHome]
    cases listed : model.users with
    | nil => rw [List.modify_nil, withUsers, ← listed]
    | cons first rest =>
      have isOwner : homeOwner model = first := by
        rw [homeOwner, listed]
      rw [isOwner, List.modify_zero_cons,
        withProgram_withHome_self (hasProgram first (listed ▸ rfl)), withUsers, ← listed]
  rw [updated]
  exact (congrArg (withOwnerHome _) same).trans home

end Files

namespace Session

variable {session : Session Memory} {model : Model}

/-- A planned text says what the generated one says, whatever is kept around it. -/
theorem statements_plannedContent {kind : FileKind} (existing : Option String)
    (hasRegion : session.merges kind = true →
      (Managed.locate (session.generate model kind).toList).isSome) :
    Files.statements (session.plannedContent model kind existing).toList =
      Files.statements (Files.generate session.renames model kind) := by
  have text : (session.generate model kind).toList = Files.generate session.renames model kind := by
    rw [generate, String.toList_ofList]
  -- A file that is merged has the new region, one that is not is the generated text.
  cases merges : session.merges kind with
  | false =>
    have whole : session.plannedContent model kind existing = session.generate model kind := by
      cases existing <;> simp [plannedContent, merges]
    rw [whole, text]
  | true =>
    obtain ⟨fresh, made⟩ := Option.isSome_iff_exists.1 (hasRegion merges)
    obtain ⟨region, reached, same⟩ := exists_locate_plannedContent merges made existing
    have body : region.body = fresh.body := by
      simpa [Managed.Region.managed] using same
    rw [text] at made
    rw [Files.statements_of_locate reached, Files.statements_of_locate made, body]

/-- Without faults files that are all there are read one after another. -/
theorem importFiles_eq (faultless : session.store.Faultless) {texts : FileKind → String}
    (present : ∀ kind, session.store.file? (session.filePath kind) = some (texts kind))
    (base : Model) :
    session.importFiles base =
      .ok ((Files.readFiles session.renames session.settings.defaultUsername
        (fun kind => (texts kind).toList) base).withHardwareFile
          (session.store.file? session.hardwarePath)) := by
  -- A file that is there is read, whatever the model is so far.
  have file (model : Model) (kind : FileKind) : session.importFile model kind =
      .ok (Files.read session.renames session.settings.defaultUsername (texts kind).toList model
        kind) := by
    simp only [importFile, faultless.readOptional, present, bind, Except.bind]
    rfl
  simp only [importFiles, FileKind.all, List.foldlM_cons, List.foldlM_nil, file, bind, Except.bind,
    pure, Except.pure, withHardware_eq faultless, Files.readFiles, List.foldl_cons, List.foldl_nil]

/-- Files that are all as planned say what the generated texts say, whatever was there before. -/
theorem importFiles_of_planned {store : Memory} {checksum : Option String}
    (faultless : store.Faultless) (noEnd : ¬ Managed.endMarker <:+: model.system.hostname.toList)
    (holds : ∀ kind, store.file? (session.filePath kind) =
      some (session.plannedContent model kind (session.store.file? (session.filePath kind))))
    (base : Model) :
    ({ session with store, checksum } : Session Memory).importFiles base =
      .ok ((Files.readFiles session.renames session.settings.defaultUsername
        (Files.generate session.renames model) base).withHardwareFile
          (store.file? session.hardwarePath)) := by
  -- A generated file has a region, so the planned one says what it says.
  have hasRegion (kind : FileKind) (_ : session.merges kind = true) :
      (Managed.locate (session.generate model kind).toList).isSome := by
    rw [generate, String.toList_ofList]
    exact Files.isSome_locate_generate session.renames model kind fun _ => noEnd
  have each (base : Model) (kind : FileKind) :=
    @Files.read_congr session.renames session.settings.defaultUsername _ _
      (statements_plannedContent (session.store.file? (session.filePath kind)) (hasRegion kind))
      base kind
  have imported := @importFiles_eq { session with store, checksum } faultless _ holds base
  refine imported.trans (congrArg (fun model : Model => Except.ok (model.withHardwareFile _)) ?_)
  simp only [Files.readFiles]
  exact congrArg (List.foldl · base FileKind.all) (funext fun base => funext (each base))

/-- What a sync leaves in the files says what the generated texts say, whatever was there before. -/
theorem exists_importFiles_after_sync (faultless : session.store.Faultless)
    (valid : model.validate = .ok ())
    (noEnd : ¬ Managed.endMarker <:+: model.system.hostname.toList) :
    ∃ report after, session.sync model false = (.ok report, after) ∧
      ∀ base, after.importFiles base =
        .ok ((Files.readFiles session.renames session.settings.defaultUsername
          (Files.generate session.renames model) base).withHardwareFile
            (after.store.file? after.hardwarePath)) := by
  -- The files hold what was generated for them, so that is what is read.
  obtain ⟨report, store, checksum, synced, faultless, holds⟩ := exists_sync_targets faultless valid
  refine ⟨report, _, synced, importFiles_of_planned faultless noEnd fun kind => ?_⟩
  exact holds _ (fileTarget_mem_targets session model kind)

/--
A model that was synced is not changed by what is read from its own files.

The files may have been edited by hand before. Only the text of the hardware file is taken over from
the file itself.
-/
theorem importFiles_after_sync (faultless : session.store.Faultless)
    (valid : model.validate = .ok ()) (readable : Files.IsReadable session.renames model)
    (users : Files.SystemFile.Distinct model.users)
    (hasProgram : ∀ first ∈ model.users.head?, (Files.shellProgram? first.shell.toList).isSome) :
    ∃ report after, session.sync model false = (.ok report, after) ∧
      after.importFiles model =
        .ok (model.withHardwareFile (after.store.file? after.hardwarePath)) := by
  obtain ⟨report, after, synced, imported⟩ := exists_importFiles_after_sync faultless valid
    (readable.system.hostname.noMarker _ (by simp))
  have said := @Files.readFiles_generate session.renames session.settings.defaultUsername _ model
    readable readable.services
  -- What the generated texts say about the model is the model.
  rw [Files.updated_self readable.services users hasProgram] at said
  refine ⟨report, after, synced, (imported model).trans ?_⟩
  rw [said]

/-- The household only takes over a hardware file, also where another file was written by hand before. -/
theorem importFiles_after_sync_of_edited_file :
    let session := withSettings (Memory.ofFiles (.ofList [("etc/configuration.nix", "edited"),
      ("etc/hardware-configuration.nix", "found")])) (.ofText "etc") .initial
    ∃ report after, session.sync Files.householdModel false = (.ok report, after) ∧
      after.importFiles Files.householdModel = .ok { Files.householdModel with
        system := { Files.householdModel.system with hardwareConfig := some "found" } } := by
  intro session
  have valid : Files.householdModel.validate = .ok () := by decide
  obtain ⟨report, after, synced, imported⟩ :=
    @importFiles_after_sync session Files.householdModel ⟨rfl, rfl⟩ valid
      Files.isReadable_householdModel Files.distinct_householdModel (by decide)
  -- The household has no hardware text of its own, so the file is not written.
  have kept := @file?_sync_of_apart session Files.householdModel ⟨rfl, rfl⟩ (by decide) valid
    session.hardwarePath (by decide) (by decide)
  rw [synced] at kept
  -- A sync leaves the place where it is.
  obtain ⟨_, store, checksum, shape, -⟩ := @exists_sync_targets session _ ⟨rfl, rfl⟩ valid
  obtain ⟨-, rfl⟩ := Prod.mk.inj (synced.symm.trans shape)
  have there : store.file? session.hardwarePath = some "found" := kept.trans (by decide)
  change _ = Except.ok (Files.householdModel.withHardwareFile (store.file? session.hardwarePath))
    at imported
  rw [there, Model.withHardwareFile_of_shown _ (List.mem_cons_self : 'f' ∈ "found".toList) rfl]
    at imported
  exact ⟨report, _, synced, imported⟩

/-- A model with a service that can be taken for a hardware module gets one from its own files. -/
theorem importFiles_after_sync_misleadingModel :
    let session := withSettings (Memory.ofFiles .empty) (.ofText "etc") .initial
    (∀ service ∈ Files.misleadingModel.system.services,
      Files.SystemFile.IsServicePath service.name.toList ∧
        Renames.builtin.service service.name = service.name ∧
          ¬ Files.SystemFile.hardwareWords <:+: service.name.toList) ∧
    Files.misleadingModel.validate = .ok () ∧ Files.misleadingModel.system.hardwarePreset = none ∧
      ∃ report after imported,
        session.sync Files.misleadingModel false = (.ok report, after) ∧
          after.importFiles Files.misleadingModel = .ok imported ∧
            imported.system.hardwarePreset = some "enable" := by
  intro session
  have valid : Files.misleadingModel.validate = .ok () := by decide
  have noEnd : ¬ Managed.endMarker <:+: Files.misleadingModel.system.hostname.toList := by
    decide
  obtain ⟨report, after, synced, imported⟩ :=
    @exists_importFiles_after_sync session Files.misleadingModel ⟨rfl, rfl⟩ valid noEnd
  have builtin : session.renames = .builtin := rfl
  have named : session.settings.defaultUsername = placeholderName := rfl
  -- Each service may be named as it is; the line that is written is misread.
  have preset := Files.preset_of_misleadingModel Files.misleadingModel
    (List.mem_cons_of_mem _ List.mem_cons_self)
  have found := imported Files.misleadingModel
  rw [builtin, named] at found
  generalize Files.readFiles _ _ _ Files.misleadingModel = read at found preset
  -- The hardware file does not name a module.
  obtain ⟨text, same⟩ := read.exists_withHardwareFile (after.store.file? after.hardwarePath)
  rw [same] at found
  exact ⟨Files.misleadingModel_services, valid, rfl, report, after, _, synced, found, preset⟩

end Session

end NixKeeper
