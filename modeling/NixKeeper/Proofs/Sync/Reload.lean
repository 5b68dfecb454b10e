import NixKeeper.Proofs.Files.RoundTrip
import NixKeeper.Proofs.Sync.Steps

/-! A model that was synced is loaded back from its snapshot. -/

namespace NixKeeper

/-- A text shows something: one of its characters is no white space. -/
def IsShown (text : String) : Prop :=
  ∃ c ∈ text.toList, Text.isBlank c = false

instance (text : String) : Decidable (IsShown text) :=
  -- Only the characters of the text are looked at, and not all that there are.
  List.decidableBEx (Text.isBlank · = false) text.toList

/-- The model with the text of a hardware file in the place of its own, unless the text is blank. -/
def Model.withHardwareFile (model : Model) (file : Option String) : Model :=
  match file with
  | none => model
  | some text =>
    -- One character that is not white space is enough for the text to count.
    if IsShown text then { model with system := { model.system with hardwareConfig := some text } }
    else model

/-- A text is taken over exactly if it shows something. -/
theorem nonBlank_eq (text : String) :
    nonBlank text = if IsShown text then some text else none := by
  rw [nonBlank]
  -- The two conditions are each other's negation.
  by_cases blank : Text.allBlank text.toList = true
  · rw [if_pos blank, if_neg]
    rintro ⟨c, within, shown⟩
    rw [List.all_eq_true.1 blank c within] at shown
    cases shown
  · rw [if_neg blank, if_pos]
    simpa [IsShown, Text.allBlank] using blank

/-- A hardware file with a character that is not blank is taken over. -/
theorem Model.withHardwareFile_of_shown (model : Model) {text : String} {c : Char}
    (within : c ∈ text.toList) (shown : Text.isBlank c = false) :
    model.withHardwareFile (some text) =
      { model with system := { model.system with hardwareConfig := some text } } :=
  -- The character itself is what the condition asks for.
  if_pos ⟨c, within, shown⟩

/-- A hardware file says nothing beyond its own text. -/
theorem Model.exists_withHardwareFile (model : Model) (file : Option String) :
    ∃ text, model.withHardwareFile file =
      { model with system := { model.system with hardwareConfig := text } } := by
  unfold withHardwareFile
  -- Where the file is missing or blank, the text of the model stays.
  split
  · exact ⟨model.system.hardwareConfig, rfl⟩
  · split
    · exact ⟨_, rfl⟩
    · exact ⟨model.system.hardwareConfig, rfl⟩

namespace Session

variable {session : Session Memory} {model : Model}

/-- Without faults the hardware file is read as it is. -/
theorem withHardware_eq (faultless : session.store.Faultless) (model : Model) :
    session.withHardware model =
      .ok (model.withHardwareFile (session.store.file? session.hardwarePath)) := by
  simp only [withHardware, readHardware, faultless.readOptional, bind, Except.bind, pure, Except.pure]
  cases session.store.file? session.hardwarePath with
  | none => rfl
  | some text =>
    -- The text that counts for the model is the one that is not passed over when it is read.
    rw [Option.bind_some, nonBlank_eq, Model.withHardwareFile]
    by_cases shown : IsShown text
    · simp only [if_pos shown]
    · simp only [if_neg shown]

/-- A snapshot of a model without empty texts is loaded as that model. -/
theorem load_of_snapshot (faultless : session.store.Faultless)
    (json : session.snapshotPath.format = .ok .json) (noFloat : model.FloatFree)
    (noneEmpty : model.NoneEmpty)
    (saved : session.store.file? session.snapshotPath = some (Json.pretty model.document)) :
    session.load.1 =
      .ok ⟨model.withHardwareFile (session.store.file? session.hardwarePath), .snapshot⟩ := by
  have parsed := Model.schema_parse_pretty json noFloat
  rw [noneEmpty.settled] at parsed
  -- The snapshot is understood as the model, and its checksum is remembered.
  have read : session.readSnapshot = (.ok (some model),
      { session with checksum := some (Sha256.checksum (Json.pretty model.document)) }) := by
    rw [readSnapshot, faultless.readOptional, saved]
    simp only [parsed]
  have hardware := @withHardware_eq
    { session with checksum := some (Sha256.checksum (Json.pretty model.document)) } faultless model
  rw [load, read]
  simp only [hardware]
  rfl

/-- The checksum that is remembered is that of the snapshot that is there. -/
def Tracks (session : Session Memory) : Prop :=
  -- Where no checksum is remembered nothing is asked.
  ∀ checksum ∈ session.checksum, ∃ content,
    session.store.file? session.snapshotPath = some content ∧ Sha256.checksum content = checksum

/-- A session that tracks its snapshot still does so after its files were written. -/
theorem Tracks.withStore {report : SyncReport} {store : Memory} (tracks : session.Tracks)
    (json : session.snapshotPath.format = .ok .json)
    (wrote : session.WroteTargets model report store) :
    ({ session with store } : Session Memory).Tracks := by
  intro checksum known
  obtain ⟨content, there, same⟩ := tracks checksum known
  -- The snapshot is none of the files.
  refine ⟨content, ?_, same⟩
  rw [← there]
  exact wrote.leaves session.snapshotPath (snapshotPath_not_mem_targets json)

/-- A session that tracks its snapshot still does so after a save. -/
theorem Saved.tracks {store : Memory} {checksum : Option String}
    (saved : session.Saved model store checksum) (tracks : session.Tracks) :
    ({ session with store, checksum } : Session Memory).Tracks := by
  -- Either the written text is remembered, or nothing has changed.
  rcases saved.holds with written | ⟨same, kept⟩
  · rw [saved.remembers]
    rintro checksum ⟨⟩
    exact ⟨_, written, rfl⟩
  · rw [same, kept]
    exact tracks

/-- A session that was opened in a place, and has loaded and synced any number of times since. -/
inductive Reached (memory : Memory) (root : Path) (settings : Settings) : Session Memory → Prop
  | opened : Reached memory root settings (withSettings memory root settings)
  | loaded {session : Session Memory} : Reached memory root settings session →
      Reached memory root settings session.load.2
  | synced {session : Session Memory} (model : Model) (dryRun : Bool) :
      Reached memory root settings session → Reached memory root settings (session.sync model dryRun).2

/-- What a session in use keeps: its place, its settings, and the checksum of its snapshot. -/
structure InUse (root : Path) (settings : Settings) (session : Session Memory) : Prop where
  root : session.root = root
  settings : session.settings = settings
  faultless : session.store.Faultless
  tracks : session.Tracks

variable {memory : Memory} {root : Path} {settings : Settings}

/-- The snapshot of a session in use is at the place that the settings name. -/
theorem InUse.snapshotPath (inUse : InUse root settings session) :
    session.snapshotPath = root.join settings.snapshotFile := by
  -- A session in use keeps its root and its settings.
  rw [Session.snapshotPath, inUse.root, inUse.settings]

/-- A load keeps a session in use. -/
theorem InUse.load (inUse : InUse root settings session) : InUse root settings session.load.2 := by
  -- A load remembers the checksum of a snapshot that is there, or nothing new.
  obtain ⟨checksum, loaded, change⟩ := exists_loaded inUse.faultless
  rw [loaded]
  refine ⟨inUse.root, inUse.settings, inUse.faultless, ?_⟩
  rcases change with same | ⟨content, saved, found, -, known⟩
  · exact same ▸ inUse.tracks
  · intro other remembered
    exact ⟨content, found, Option.some.inj (known.symm.trans remembered)⟩

/-- A sync keeps a session in use. -/
theorem InUse.sync (inUse : InUse root settings session)
    (json : (root.join settings.snapshotFile).format = .ok .json) (model : Model) (dryRun : Bool) :
    InUse root settings (session.sync model dryRun).2 := by
  have json : session.snapshotPath.format = .ok .json := inUse.snapshotPath ▸ json
  -- An invalid model is refused before anything is looked at.
  cases valid : model.validate with
  | error error => simpa [Session.sync, prepare, valid] using inUse
  | ok =>
    cases dryRun with
    | true =>
      -- A rehearsal leaves everything as it is.
      unfold Session.sync
      cases session.prepare model <;> exact inUse
    | false =>
      obtain ⟨report, middle, store, checksum, synced, -, wrote, saved⟩ :=
        exists_synced inUse.faultless json valid
      rw [synced]
      exact ⟨inUse.root, inUse.settings, saved.faultless,
        saved.tracks (inUse.tracks.withStore json wrote)⟩

/-- Every session that is reached is in use. -/
theorem Reached.inUse (faultless : memory.Faultless)
    (json : (root.join settings.snapshotFile).format = .ok .json)
    (reached : Reached memory root settings session) : InUse root settings session := by
  induction reached with
  -- A session that was just opened remembers nothing.
  | opened => exact ⟨rfl, rfl, faultless, fun _ known => absurd known (by simp [withSettings])⟩
  | loaded _ ih => exact ih.load
  | synced model dryRun _ ih => exact ih.sync json model dryRun

/--
A model that was synced is loaded back from its snapshot.

Only the text of the hardware file is taken from the file itself, which a sync need not write. A
session that has loaded or synced before leaves a snapshot of the same checksum as it is, so the one
that it remembers may not be another text of that checksum.
-/
theorem load_after_sync (faultless : memory.Faultless)
    (json : (root.join settings.snapshotFile).format = .ok .json)
    (reached : Reached memory root settings session) (valid : model.validate = .ok ())
    (noFloat : model.FloatFree) (noneEmpty : model.NoneEmpty)
    (noCollision : ∀ content ∈ session.store.file? (root.join settings.snapshotFile),
      session.checksum = some (Sha256.checksum content) →
        Sha256.checksum content = Sha256.checksum (Json.pretty model.document) →
          content = Json.pretty model.document) :
    ∃ report after, session.sync model false = (.ok report, after) ∧ report.success = true ∧
      (withSettings after.store root settings).load.1 =
        .ok ⟨model.withHardwareFile (after.store.file? (root.join hardwareFileName)), .snapshot⟩ := by
  have inUse := reached.inUse faultless json
  have path := inUse.snapshotPath
  obtain ⟨report, middle, store, checksum, synced, success, wrote, saved⟩ :=
    exists_synced inUse.faultless (path ▸ json) valid
  -- The files of the machine are written beside the snapshot.
  have kept : middle.file? session.snapshotPath = session.store.file? session.snapshotPath :=
    wrote.leaves session.snapshotPath (snapshotPath_not_mem_targets (path ▸ json))
  have holds : store.file? (root.join settings.snapshotFile) = some (Json.pretty model.document) := by
    rw [← path]
    rcases saved.holds with written | ⟨same, unchanged⟩
    · exact written
    · -- The checksum was remembered, so the text that is there has it.
      have known : session.checksum = some (Sha256.checksum (Json.pretty model.document)) :=
        unchanged ▸ saved.remembers
      obtain ⟨content, there, sum⟩ := inUse.tracks _ known
      rw [same]
      exact kept.trans (there.trans (congrArg some
        (noCollision content (path ▸ there) (sum ▸ known) sum)))
  refine ⟨report, _, synced, success, ?_⟩
  exact @load_of_snapshot (withSettings store root settings) model saved.faultless json noFloat
    noneEmpty holds

/-- No option of the household is a floating-point number. -/
theorem floatFree_householdModel : Files.householdModel.FloatFree := by
  intro service within entry member value same
  have among : entry ∈ Files.householdModel.system.services.flatMap (·.options.entries) :=
    List.mem_flatMap.2 ⟨service, within, member⟩
  -- The only option is a truth value.
  obtain rfl := List.mem_singleton.1 (Files.options_householdModel ▸ among)
  cases same

/-- No optional text of the household is empty. -/
theorem noneEmpty_householdModel : Files.householdModel.NoneEmpty := by
  -- Every such text is absent or a closed word.
  constructor <;> simp [Files.householdModel, Model.initial, System.initial, User.named]

/-- The household is loaded back with the text of a hardware file that was there before. -/
theorem load_after_sync_of_hardware_file :
    let memory := Memory.ofFiles (.ofList [("etc/hardware-configuration.nix", "edited")])
    let root := Path.ofText "etc"
    let session := (withSettings memory root .initial).load.2
    ∃ report after, session.sync Files.householdModel false = (.ok report, after) ∧
      report.success = true ∧
      after.store.file? (root.join hardwareFileName) = some "edited" ∧
      (withSettings after.store root .initial).load.1 =
        .ok ⟨{ Files.householdModel with
          system := { Files.householdModel.system with hardwareConfig := some "edited" } },
          .snapshot⟩ := by
  intro memory root session
  have valid : Files.householdModel.validate = .ok () := by decide
  have reached : Reached memory root .initial session := .loaded .opened
  have json : (root.join Settings.initial.snapshotFile).format = .ok .json := by decide
  -- There is no snapshot yet, so no text can have its checksum.
  have empty : session.store.file? (root.join Settings.initial.snapshotFile) = none := by
    decide
  obtain ⟨report, after, synced, success, loaded⟩ := load_after_sync ⟨rfl, rfl⟩ json reached valid
    floatFree_householdModel noneEmpty_householdModel
    fun content within => absurd within (by simp [empty])
  -- The household has no hardware text of its own, so the file is not written.
  have kept := @file?_sync_of_apart session _ (reached.inUse ⟨rfl, rfl⟩ json).faultless
    (by decide) valid (root.join hardwareFileName) (by decide) (by decide)
  rw [synced] at kept
  have there : after.store.file? (root.join hardwareFileName) = some "edited" :=
    kept.trans (by decide)
  rw [there, Model.withHardwareFile_of_shown _ (List.mem_cons_self : 'e' ∈ "edited".toList) rfl] at loaded
  exact ⟨report, after, synced, success, there, loaded⟩

end Session

end NixKeeper
