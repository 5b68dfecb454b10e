import NixKeeper.Proofs.Sync.Steps

/-! A sync repairs what a check reports, and a check after a sync finds nothing to repair. -/

namespace NixKeeper

/-- A report without a drift stays healthy with one more file that has none. -/
theorem CheckReport.status_foldl_record {reports : List (String × Option Drift)}
    {report : CheckReport} (healthy : report.status = .healthy)
    (settled : ∀ entry ∈ reports, entry.2 = none) :
    (reports.foldl (fun report entry => report.record entry.1 entry.2) report).status = .healthy := by
  -- File by file the worst status so far is the healthy one.
  induction reports generalizing report with
  | nil => exact healthy
  | cons entry reports ih =>
    obtain ⟨first, later⟩ := List.forall_mem_cons.1 settled
    refine ih ?_ later
    simp [record, first, healthy, CheckStatus.worse]

/-- A report lists its files in the order in which they were recorded. -/
theorem CheckReport.files_foldl_record (reports : List (String × Option Drift))
    (report : CheckReport) :
    (reports.foldl (fun report entry => report.record entry.1 entry.2) report).files =
      report.files ++ reports.map fun entry =>
        ⟨entry.1, (entry.2.map Drift.status).getD .healthy, entry.2⟩ := by
  -- Each file is put behind those recorded before.
  induction reports generalizing report with
  | nil => simp
  | cons entry reports ih =>
    rw [List.foldl_cons, ih]
    simp [record]

namespace Session

variable {session : Session Memory} {model : Model}

/-- How each file departs, as far as it does. -/
def findings (session : Session Memory) (model : Model) : List (String × Option Drift) :=
  -- Each target is compared with its file in the store.
  (session.targets model).map fun target =>
    (target.path.text, target.found (session.store.file? target.path))

/-- Without faults a check records what it finds about every file, and then looks at the snapshot. -/
theorem check_eq (faultless : session.store.Faultless) :
    session.check model = session.checkSnapshot
      ((session.findings model).foldl (fun report entry => report.record entry.1 entry.2) .empty) := by
  -- Each file is read without failure, and what is found about it is recorded.
  have file (target : Target) (report : CheckReport) :
      session.checkFile target.path target.drift report =
        .ok (report.record target.path.text (target.found (session.store.file? target.path))) := by
    simp only [checkFile, faultless.readOptional, bind, Except.bind]
    cases session.store.file? target.path <;> rfl
  have generated (kind : FileKind) (report : CheckReport) :
      session.checkFile (session.filePath kind)
        (fun current => session.fileDrift kind current (session.generate model kind)) report =
        .ok (report.record (session.filePath kind).text
          ((session.fileTarget model kind).found (session.store.file? (session.filePath kind)))) :=
    file (session.fileTarget model kind) report
  have hardware (report : CheckReport) : session.checkHardware model report =
      .ok (((session.hardwareContent model).map session.hardwareTarget).toList.foldl
        (fun report target => report.record target.path.text
          (target.found (session.store.file? target.path))) report) := by
    rw [checkHardware]
    cases session.hardwareContent model with
    | none => rfl
    | some content => exact file (session.hardwareTarget content) report
  simp only [check, FileKind.all, List.foldlM_cons, List.foldlM_nil, generated, hardware, bind,
    Except.bind, pure, Except.pure, findings, targets, List.map_append, List.foldl_append,
    List.foldl_map]
  rfl

/-- A snapshot that can be understood is there. -/
def HasSnapshot (session : Session Memory) : Prop :=
  -- The file is there, and a model is read from it.
  ∃ content saved, session.store.file? session.snapshotPath = some content ∧
    Model.schema.parse session.snapshotPath content = .ok saved

/-- A checksum is remembered only of a snapshot that can be understood. -/
def Remembers (session : Session Memory) : Prop :=
  session.checksum.isSome → session.HasSnapshot

/-- A load changes at most what is remembered, and that as it should. -/
theorem exists_load (faultless : session.store.Faultless) (remembers : session.Remembers) :
    ∃ checksum, session.load.2 = { session with checksum } ∧
      ({ session with checksum } : Session Memory).Remembers := by
  -- The checksum is kept, or it is that of a snapshot which can be read.
  obtain ⟨checksum, loaded, same | ⟨content, saved, found, parsed, -⟩⟩ := exists_loaded faultless
  · exact ⟨checksum, loaded, same ▸ remembers⟩
  · exact ⟨checksum, loaded, fun _ => ⟨content, saved, found, parsed⟩⟩

/-- A snapshot can be understood after a save, also where it was left as it is. -/
theorem Saved.hasSnapshot {store : Memory} {checksum : Option String}
    (saved : session.Saved model store checksum) (remembers : session.Remembers)
    (json : session.snapshotPath.format = .ok .json) (noFloat : model.FloatFree) :
    ({ session with store, checksum } : Session Memory).HasSnapshot := by
  rcases saved.holds with written | ⟨same, kept⟩
  · exact ⟨_, _, written, Model.schema_parse_pretty json noFloat⟩
  · -- The remembered snapshot is still there.
    have known : session.checksum.isSome := by
      rw [← kept, saved.remembers]
      rfl
    rw [same, kept]
    exact remembers known

/-- Without faults a sync with a valid model writes all files as planned and saves the model. -/
theorem exists_sync (faultless : session.store.Faultless) (remembers : session.Remembers)
    (json : session.snapshotPath.format = .ok .json) (valid : model.validate = .ok ())
    (noFloat : model.FloatFree) :
    ∃ report store checksum,
      session.sync model false = (.ok report, { session with store, checksum }) ∧
        report.success = true ∧ store.Faultless ∧
        (∀ target ∈ session.targets model,
          store.file? target.path = some (target.content (session.store.file? target.path))) ∧
        (∀ target ∈ session.targets model,
          (target.planned (session.store.file? target.path)).isChanged = true →
            "Wrote " ++ target.path.text ∈ report.actions) ∧
        ({ session with store, checksum } : Session Memory).HasSnapshot := by
  obtain ⟨report, middle, store, checksum, synced, success, wrote, saved⟩ :=
    exists_synced faultless json valid
  -- The snapshot is none of the files, so it is still there if it was remembered.
  have remembers : ({ session with store := middle } : Session Memory).Remembers := by
    intro known
    obtain ⟨content, old, there, parsed⟩ := remembers known
    refine ⟨content, old, ?_, parsed⟩
    rw [← there]
    exact wrote.leaves session.snapshotPath (snapshotPath_not_mem_targets json)
  exact ⟨report, store, checksum, synced, success, saved.faultless,
    fun target within => saved.file?_target json wrote within, wrote.reports,
    saved.hasSnapshot remembers json noFloat⟩

/-- A look at a snapshot that is missing or can be understood adds nothing to a report. -/
theorem checkSnapshot_eq (faultless : session.store.Faultless) (snapshot : session.HasSnapshot)
    (report : CheckReport) : session.checkSnapshot report = .ok report := by
  obtain ⟨content, saved, there, parsed⟩ := snapshot
  -- The snapshot is there and can be read, so nothing is reported about it.
  simp [checkSnapshot, faultless.readOptional, there, parsed, bind, Except.bind, pure, Except.pure]

/-- A look at the snapshot leaves what was found about the files. -/
theorem exists_checkSnapshot (faultless : session.store.Faultless) (report : CheckReport) :
    ∃ later, session.checkSnapshot report = .ok later ∧ later.files = report.files := by
  simp only [checkSnapshot, faultless.readOptional, bind, Except.bind]
  cases session.store.file? session.snapshotPath with
  | none => exact ⟨report, rfl, rfl⟩
  | some content =>
    -- A snapshot that is not understood is recorded beside the files.
    cases parsed : Model.schema.parse session.snapshotPath content with
    | ok saved => exact ⟨report, by simp [parsed]; rfl, rfl⟩
    | error error =>
      exact ⟨report.recordSnapshotError error.message, by simp [parsed]; rfl, rfl⟩

/-- Without faults a check succeeds and lists every file with how it departs. -/
theorem exists_check (faultless : session.store.Faultless) (model : Model) :
    ∃ report, session.check model = .ok report ∧
      report.files = (session.findings model).map fun entry =>
        ⟨entry.1, (entry.2.map Drift.status).getD .healthy, entry.2⟩ := by
  obtain ⟨report, looked, files⟩ := exists_checkSnapshot faultless
    ((session.findings model).foldl (fun report entry => report.record entry.1 entry.2) .empty)
  -- The targets are recorded one after another, and the snapshot adds no file.
  refine ⟨report, (check_eq faultless).trans looked, ?_⟩
  rw [files, CheckReport.files_foldl_record, CheckReport.empty, List.nil_append]

/-- A check is content where no file departs and a snapshot can be understood. -/
theorem exists_check_healthy (faultless : session.store.Faultless)
    (settled : ∀ target ∈ session.targets model,
      target.found (session.store.file? target.path) = none)
    (snapshot : session.HasSnapshot) :
    ∃ report, session.check model = .ok report ∧ report.status = .healthy :=
  -- Nothing is found in any target, so nothing lowers the status.
  ⟨_, (check_eq faultless).trans (checkSnapshot_eq faultless snapshot _),
    CheckReport.status_foldl_record rfl (List.forall_mem_map.2 settled)⟩

/-- A file that a check finds to depart is one of the files that have to be written. -/
theorem exists_changed_of_mem_files {report : CheckReport} (faultless : session.store.Faultless)
    (settles : ∀ target ∈ session.targets model, target.Settles)
    (checked : session.check model = .ok report) {file : FileCheck} (within : file ∈ report.files)
    (departs : file.drift.isSome) :
    ∃ target ∈ session.targets model, target.path.text = file.path ∧
      (target.planned (session.store.file? target.path)).isChanged = true := by
  obtain ⟨same, checkedSame, files⟩ := exists_check faultless model
  -- A check has one report, whose files are known.
  obtain rfl : same = report := Except.ok.inj (checkedSame.symm.trans checked)
  rw [files, findings, List.map_map] at within
  obtain ⟨target, amongTargets, rfl⟩ := List.mem_map.1 within
  exact ⟨target, amongTargets, rfl, (settles target amongTargets).isChanged departs⟩

/-- Every file that departs is written by a sync, and a check after it finds nothing. -/
theorem exists_sync_and_check (faultless : session.store.Faultless) (remembers : session.Remembers)
    (json : session.snapshotPath.format = .ok .json) (valid : model.validate = .ok ())
    (noFloat : model.FloatFree)
    (settles : ∀ target ∈ session.targets model, target.Settles) :
    ∃ done after, session.sync model false = (.ok done, after) ∧ done.success = true ∧
      (∀ report, session.check model = .ok report → ∀ file ∈ report.files, file.drift.isSome →
        "Wrote " ++ file.path ∈ done.actions) ∧
      ∃ report, after.check model = .ok report ∧ report.status = .healthy := by
  obtain ⟨done, store, checksum, synced, success, laterFaultless, holds, reports, snapshot⟩ :=
    exists_sync faultless remembers json valid noFloat
  refine ⟨done, _, synced, success, ?_, exists_check_healthy laterFaultless ?_ snapshot⟩
  · intro report checked file within departs
    -- A file that departs from its target is one that the sync changes.
    obtain ⟨target, among, path, changed⟩ :=
      exists_changed_of_mem_files faultless settles checked within departs
    rw [← path]
    exact reports target among changed
  · -- The files are the same as before the sync, and each is as planned.
    intro target within
    exact (holds target within) ▸ (settles target within).found_content _

/--
What a check finds to repair is what a sync repairs.

Every file that departs from the model is written by a sync, and a check after the sync is content
with the machine, whatever texts stand in the model and in the files.
-/
theorem sync_repairs_what_check_finds {memory : Memory} (faultless : memory.Faultless) (root : Path)
    (settings : Settings) {session : Session Memory}
    (opened : session = withSettings memory root settings ∨
      session = (withSettings memory root settings).load.2)
    (json : (root.join settings.snapshotFile).format = .ok .json) {model : Model}
    (valid : model.validate = .ok ()) (noFloat : model.FloatFree)
    (noEnd : settings.preserveManifestEdits = true →
      ¬ Managed.endMarker <:+: model.system.hostname.toList) :
    (∃ report files, session.check model = .ok report ∧ session.plan model = .ok files ∧
      ∀ file ∈ report.files, file.drift.isSome →
        ∃ planned ∈ files, planned.path.text = file.path ∧ planned.isChanged = true) ∧
    ∃ done after, session.sync model false = (.ok done, after) ∧ done.success = true ∧
      (∀ report, session.check model = .ok report → ∀ file ∈ report.files, file.drift.isSome →
        "Wrote " ++ file.path ∈ done.actions) ∧
      ∃ report, after.check model = .ok report ∧ report.status = .healthy := by
  -- Opening and loading leave the files alone and remember only a snapshot that was understood.
  obtain ⟨checksum, shape, remembers⟩ : ∃ checksum,
      session = { withSettings memory root settings with checksum } ∧ session.Remembers := by
    have forgetful : (withSettings memory root settings).Remembers := by
      simp [Remembers, withSettings]
    rcases opened with rfl | rfl
    · exact ⟨none, rfl, forgetful⟩
    · obtain ⟨checksum, loaded, remembers⟩ :=
        @exists_load (withSettings memory root settings) faultless forgetful
      rw [loaded]
      exact ⟨checksum, rfl, remembers⟩
  have faultless : session.store.Faultless := shape ▸ faultless
  have json : session.snapshotPath.format = .ok .json := shape ▸ json
  have settles : ∀ target ∈ session.targets model, target.Settles := fun target within =>
    settles_of_mem_targets (shape ▸ noEnd) within
  obtain ⟨report, checked, -⟩ := exists_check faultless model
  refine ⟨⟨report, _, checked, plan_eq faultless, ?_⟩,
    exists_sync_and_check faultless remembers json valid noFloat settles⟩
  intro file within departs
  -- What departs is planned with a change.
  obtain ⟨target, among, path, changed⟩ :=
    exists_changed_of_mem_files faultless settles checked within departs
  exact ⟨_, List.mem_map_of_mem among, path, changed⟩

/-- A system file without a region is found to be out of step with the initial model, and is written. -/
theorem sync_repairs_edited_place :
    let memory := Memory.ofFiles (.ofList [("etc/configuration.nix", "edited")])
    let session := (withSettings memory (.ofText "etc") .initial).load.2
    (∃ report files, session.check .initial = .ok report ∧ session.plan .initial = .ok files ∧
      (∃ file ∈ report.files, file.path = "etc/configuration.nix" ∧ file.drift = some .regionMissing) ∧
      ∀ file ∈ report.files, file.drift.isSome →
        ∃ planned ∈ files, planned.path.text = file.path ∧ planned.isChanged = true) ∧
    ∃ done after, session.sync .initial false = (.ok done, after) ∧ done.success = true ∧
      "Wrote etc/configuration.nix" ∈ done.actions ∧
      ∃ report, after.check .initial = .ok report ∧ report.status = .healthy := by
  intro memory session
  -- The place has no faults, and the session has loaded before.
  obtain ⟨⟨report, files, checked, planned, repairs⟩, done, after, synced, success, wrote, healthy⟩ :=
    @sync_repairs_what_check_finds memory ⟨rfl, rfl⟩ (.ofText "etc") .initial session (.inr rfl)
      (by decide) .initial (by decide) Model.floatFree_initial
      (by simp [Settings.initial])
  have faultless : session.store.Faultless := by
    obtain ⟨checksum, loaded, -⟩ := @exists_loaded (withSettings memory (.ofText "etc") .initial)
      ⟨rfl, rfl⟩
    rw [show session = _ from loaded]
    exact ⟨rfl, rfl⟩
  have missing : (("etc/configuration.nix", some .regionMissing) : String × Option Drift) ∈
      session.findings .initial := by
    decide
  -- What is found about the file stands in the report of the check.
  obtain ⟨same, alsoChecked, listed⟩ := exists_check faultless .initial
  obtain rfl := Except.ok.inj (checked.symm.trans alsoChecked)
  have found := List.mem_map_of_mem (f := fun entry : String × Option Drift =>
    (⟨entry.1, (entry.2.map Drift.status).getD .healthy, entry.2⟩ : FileCheck)) missing
  rw [← listed] at found
  exact ⟨⟨report, files, checked, planned, ⟨_, found, rfl, rfl⟩, repairs⟩, done, after, synced, success,
    wrote report checked _ found rfl, healthy⟩

end Session

end NixKeeper
