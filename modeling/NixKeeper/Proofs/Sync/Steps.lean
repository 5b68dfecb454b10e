import Mathlib.Data.List.Nodup
import NixKeeper.Proofs.Model.Snapshot
import NixKeeper.Proofs.Sync.Faults

/-!
What a load and a sync do to a session.

A load changes at most what is remembered of the snapshot. A sync writes every file as planned, and
only then saves the model.
-/

namespace NixKeeper

namespace Session

variable {session : Session Memory} {model : Model}

/-- A load leaves the session as reading the snapshot does, wherever the files are kept. -/
theorem load_snd {σ : Type} [Storage σ] (session : Session σ) :
    session.load.2 = session.readSnapshot.2 := by
  rw [load]
  -- What is imported is read with the session that reading the snapshot has left.
  cases session.readSnapshot with
  | mk result later =>
    cases result with
    | error error => rfl
    | ok saved =>
      cases saved with
      | none => cases found : later.hasFiles <;> simp [found]
      | some saved => rfl

/-- Without faults a load remembers the checksum of a snapshot that it can understand. -/
theorem exists_loaded (faultless : session.store.Faultless) :
    ∃ checksum, session.load.2 = { session with checksum } ∧
      (checksum = session.checksum ∨
        ∃ content saved, session.store.file? session.snapshotPath = some content ∧
          Model.schema.parse session.snapshotPath content = .ok saved ∧
            checksum = some (Sha256.checksum content)) := by
  rw [load_snd, readSnapshot, faultless.readOptional]
  cases found : session.store.file? session.snapshotPath with
  | none => exact ⟨session.checksum, rfl, .inl rfl⟩
  | some content =>
    -- A snapshot that is not understood is not remembered.
    cases parsed : Model.schema.parse session.snapshotPath content with
    | error error => exact ⟨session.checksum, by simp [parsed], .inl rfl⟩
    | ok saved =>
      exact ⟨some (Sha256.checksum content), by simp [parsed],
        .inr ⟨content, saved, rfl, parsed, rfl⟩⟩

/-- Without faults all files can be read. -/
theorem readable_of_faultless (faultless : session.store.Faultless) (model : Model) :
    session.Readable model := by
  intro target _ hidden
  -- No file is unreadable.
  rw [faultless.readable] at hidden
  cases hidden

/-- Without faults a plan shows every file as it is and as it should be. -/
theorem plan_eq (faultless : session.store.Faultless) :
    session.plan model = .ok ((session.targets model).map fun target =>
      target.planned (session.store.file? target.path)) :=
  -- Without faults every target can be read.
  plan_eq_ok (readable_of_faultless faultless model)

/-- Without faults the files that are written are those that have changed. -/
theorem writtenFiles_eq {store : Memory} (faultless : store.Faultless) (files : List PlannedFile) :
    writtenFiles store files = files.filter (·.isChanged) := by
  -- No file is refused.
  simp [writtenFiles, faultless.writable]

/-- Without faults every file can be written. -/
theorem failedFiles_eq {store : Memory} (faultless : store.Faultless) (files : List PlannedFile) :
    failedFiles store files = [] := by
  -- No file is refused.
  simp [failedFiles, faultless.writable]

/-- Files that could all be written, with the report before and after. -/
structure Wrote (store : Memory) (report : SyncReport) (files : List PlannedFile)
    (result : SyncReport × Memory) : Prop where
  faultless : result.2.Faultless
  errors : result.1.errors = report.errors
  keeps : ∀ action ∈ report.actions, action ∈ result.1.actions
  reports : ∀ file ∈ files, file.isChanged = true → "Wrote " ++ file.path.text ∈ result.1.actions
  holds : ∀ file ∈ files, result.2.file? file.path = some file.content
  leaves : ∀ path ∉ files.map PlannedFile.path, result.2.file? path = store.file? path

/-- Without faults files at different paths are all as planned in the end. -/
theorem wrote_writeFiles {store : Memory} {report : SyncReport} {files : List PlannedFile}
    (faultless : store.Faultless) (distinct : (files.map PlannedFile.path).Nodup)
    (current : ∀ file ∈ files, file.existing = store.file? file.path) :
    Wrote store report files (writeFiles store report files) := by
  have written := writtenFiles_eq faultless files
  have paths : ((writtenFiles store files).map newText).map (·.1) =
      (writtenFiles store files).map PlannedFile.path := List.map_map
  have front : ((writtenFiles store files).map PlannedFile.path).Sublist
      (files.map PlannedFile.path) := List.filter_sublist.map _
  have apart := distinct.sublist front
  rw [← paths] at apart front
  rw [writeFiles_eq, failedFiles_eq faultless]
  refine ⟨faultless.overwritten _, List.append_nil _, fun _ => List.mem_append_left _, ?_, ?_, ?_⟩
  · intro file among changed
    refine List.mem_append_right _ (List.mem_map_of_mem ?_)
    rw [written]
    exact List.mem_filter.2 ⟨among, changed⟩
  · intro file among
    cases changed : file.isChanged with
    | true =>
      -- A file that has changed is written, and no other one at its path.
      have within : newText file ∈ (writtenFiles store files).map newText := by
        rw [written]
        exact List.mem_map_of_mem (List.mem_filter.2 ⟨among, changed⟩)
      exact store.file?_overwritten_of_mem apart within
    | false =>
      -- The file holds the planned text already, and nothing is written at its path.
      have outside : file.path ∉ ((writtenFiles store files).map newText).map (·.1) := by
        rw [paths, written]
        intro within
        obtain ⟨other, kept, same⟩ := List.mem_map.1 within
        obtain ⟨also, otherChanged⟩ := List.mem_filter.1 kept
        rw [List.inj_on_of_nodup_map distinct also among same, changed] at otherChanged
        cases otherChanged
      refine (store.file?_overwritten_of_not_mem outside).trans ((current file among).symm.trans ?_)
      simpa [PlannedFile.isChanged] using changed
  · exact fun path outside =>
      store.file?_overwritten_of_not_mem fun within => outside (front.subset within)

/-- A sync that wrote all files as planned, and then turned to the snapshot. -/
structure WroteTargets (session : Session Memory) (model : Model) (report : SyncReport)
    (store : Memory) : Prop where
  faultless : store.Faultless
  errors : report.errors = []
  reports : ∀ target ∈ session.targets model,
    (target.planned (session.store.file? target.path)).isChanged = true →
      "Wrote " ++ target.path.text ∈ report.actions
  holds : ∀ target ∈ session.targets model,
    store.file? target.path = some (target.content (session.store.file? target.path))
  leaves : ∀ path ∉ (session.targets model).map Target.path,
    store.file? path = session.store.file? path

/-- Without faults a valid model is planned, and all its files are written. -/
theorem exists_wroteTargets (faultless : session.store.Faultless)
    (valid : model.validate = .ok ()) :
    ∃ files report store, session.prepare model = .ok files ∧
      writeFiles session.store .empty files = (report, store) ∧
      session.WroteTargets model report store := by
  obtain ⟨files, planned⟩ : ∃ files, session.plan model = .ok files ∧
      files = (session.targets model).map fun target =>
        target.planned (session.store.file? target.path) := ⟨_, plan_eq faultless, rfl⟩
  have paths : files.map PlannedFile.path = (session.targets model).map Target.path := by
    simp [planned.2, Target.planned]
  have prepared : session.prepare model = .ok files := by
    rw [prepare, valid, planned.1]
  -- Each planned file was compared with what is there, and no two have one path.
  have wrote : Wrote session.store .empty files (writeFiles session.store .empty files) := by
    refine wrote_writeFiles faultless (paths ▸ nodup_targets session model) ?_
    rw [planned.2]
    exact List.forall_mem_map.2 fun _ _ => rfl
  have among {target : Target} (within : target ∈ session.targets model) :
      target.planned (session.store.file? target.path) ∈ files := by
    rw [planned.2]
    exact List.mem_map_of_mem within
  refine ⟨files, _, _, prepared, rfl, wrote.faultless, wrote.errors, ?_, ?_, ?_⟩
  · exact fun target within => wrote.reports _ (among within)
  · exact fun target within => wrote.holds _ (among within)
  · exact fun path outside => wrote.leaves path (paths ▸ outside)

/-- A model that was saved: its text was written, or the snapshot was taken to hold it already. -/
structure Saved (session : Session Memory) (model : Model) (store : Memory)
    (checksum : Option String) : Prop where
  faultless : store.Faultless
  leaves : ∀ path ≠ session.snapshotPath, store.file? path = session.store.file? path
  remembers : checksum = some (Sha256.checksum (Json.pretty model.document))
  holds : store.file? session.snapshotPath = some (Json.pretty model.document) ∨
    store = session.store ∧ checksum = session.checksum
  present : (store.file? session.snapshotPath).isSome

/-- Without faults a model is saved in JSON. -/
theorem exists_saved (faultless : session.store.Faultless)
    (json : session.snapshotPath.format = .ok .json) (model : Model) :
    ∃ saved store checksum, session.saveSnapshot model = (.ok saved, { session with store, checksum }) ∧
      session.Saved model store checksum := by
  unfold saveSnapshot
  simp only [Model.schema_render json, faultless.contains, faultless.write]
  split
  · -- The remembered snapshot is still there.
    rename_i known
    exact ⟨false, session.store, session.checksum, rfl, faultless, fun _ _ => rfl, known.1,
      .inr ⟨rfl, rfl⟩, known.2⟩
  · -- Otherwise the text is written, and found again.
    have there := session.store.file?_written session.snapshotPath session.snapshotPath
      (Json.pretty model.document)
    rw [if_pos rfl] at there
    refine ⟨true, _, _, rfl, faultless.written _ _, fun path different => ?_, rfl, .inl there, ?_⟩
    · rw [Memory.file?_written, if_neg different]
    · rw [there, Option.isSome_some]

/-- Without faults a model fails to be saved only if it has no text in the format of the snapshot. -/
theorem saving_eq (faultless : session.store.Faultless)
    (json : session.snapshotPath.format = .ok .json) (model : Model) :
    session.saving model = .ok
      (if session.checksum = some (Sha256.checksum (Json.pretty model.document)) ∧
          (session.store.file? session.snapshotPath).isSome then none
        else some (Json.pretty model.document)) := by
  -- The text is saved unless it is remembered and still there.
  have writable : session.snapshotPath ∉ session.store.unwritable := by
    rw [faultless.writable]
    exact List.not_mem_nil
  unfold saving
  rw [Model.schema_render json, faultless.contains]
  dsimp only
  rw [if_neg writable]
  split <;> rfl

/-- A model that has been saved is not saved again. -/
theorem Saved.saving_eq_none {store : Memory} {checksum : Option String}
    (saved : session.Saved model store checksum)
    (json : session.snapshotPath.format = .ok .json) :
    ({ session with store, checksum } : Session Memory).saving model = .ok none := by
  -- The checksum is that of the snapshot, and the snapshot is there.
  rw [@saving_eq { session with store, checksum } saved.faultless json,
    if_pos ⟨saved.remembers, saved.present⟩]

/-- Where the snapshot is saved, it can only add to what is reported about the files. -/
theorem exists_perform {files : List PlannedFile} {report : SyncReport} {store : Memory}
    {saved : Bool} {later : Session Memory}
    (wrote : writeFiles session.store .empty files = (report, store))
    (saving : ({ session with store } : Session Memory).saveSnapshot model = (.ok saved, later)) :
    ∃ more, session.perform model files =
      ({ report with actions := report.actions ++ more }, later) := by
  unfold perform
  rw [wrote]
  dsimp only
  rw [saving]
  -- A saved snapshot is one action more, and nothing else is reported about it.
  cases saved with
  | false => exact ⟨[], by simp⟩
  | true => exact ⟨_, rfl⟩

/-- What is reported after the files were written takes nothing back that was reported of them. -/
theorem WroteTargets.concluded {report : SyncReport} {store : Memory}
    (wrote : session.WroteTargets model report store) (more : List String) :
    session.WroteTargets model
      (SyncReport.concluded { report with actions := report.actions ++ more }) store :=
  -- Neither the store nor the errors have changed since.
  { wrote with
    reports := fun target within changed =>
      List.mem_append_left more (wrote.reports target within changed) }

/-- Without faults a sync with a valid model writes all files as planned and then saves the model. -/
theorem exists_synced (faultless : session.store.Faultless)
    (json : session.snapshotPath.format = .ok .json) (valid : model.validate = .ok ()) :
    ∃ report middle store checksum,
      session.sync model false = (.ok report, { session with store, checksum }) ∧
      report.success = true ∧ session.WroteTargets model report middle ∧
      ({ session with store := middle } : Session Memory).Saved model store checksum := by
  -- Files are written first, and the model is saved into what they leave.
  obtain ⟨files, report, middle, prepared, result, wrote⟩ := exists_wroteTargets faultless valid
  obtain ⟨written, store, checksum, saving, saved⟩ :=
    @exists_saved { session with store := middle } wrote.faultless json model
  obtain ⟨more, performed⟩ := exists_perform result saving
  have concluded := wrote.concluded more
  refine ⟨_, middle, store, checksum, ?_, SyncReport.success_concluded_iff.2 concluded.errors,
    concluded, saved⟩
  unfold sync
  simp only [prepared, performed, Bool.false_eq_true, if_false]

/-- Without faults a sync leaves a file alone that is neither planned nor the snapshot. -/
theorem file?_sync_of_apart (faultless : session.store.Faultless)
    (json : session.snapshotPath.format = .ok .json) (valid : model.validate = .ok ()) {path : Path}
    (outside : path ∉ (session.targets model).map Target.path) (apart : path ≠ session.snapshotPath) :
    (session.sync model false).2.store.file? path = session.store.file? path := by
  obtain ⟨report, middle, store, checksum, synced, -, wrote, saved⟩ :=
    exists_synced faultless json valid
  -- Neither of the two parts of a sync touches it.
  rw [synced]
  exact (saved.leaves path apart).trans (wrote.leaves path outside)

/-- The files that were written are still there when the model has been saved. -/
theorem Saved.file?_target {report : SyncReport} {middle store : Memory} {checksum : Option String}
    (saved : ({ session with store := middle } : Session Memory).Saved model store checksum)
    (json : session.snapshotPath.format = .ok .json)
    (wrote : session.WroteTargets model report middle) {target : Target}
    (within : target ∈ session.targets model) :
    store.file? target.path = some (target.content (session.store.file? target.path)) := by
  rw [saved.leaves target.path (path_ne_snapshotPath json within)]
  -- Saving touches the snapshot only, which is no target.
  exact wrote.holds target within

/-- Without faults a sync with a valid model leaves all files as planned, wherever the model is saved. -/
theorem exists_sync_targets (faultless : session.store.Faultless) (valid : model.validate = .ok ()) :
    ∃ report store checksum,
      session.sync model false = (.ok report, { session with store, checksum }) ∧ store.Faultless ∧
        ∀ target ∈ session.targets model,
          store.file? target.path = some (target.content (session.store.file? target.path)) := by
  have readable := readable_of_faultless faultless model
  obtain ⟨files, report, middle, prepared, result, wrote⟩ := exists_wroteTargets faultless valid
  -- The snapshot is at none of the paths, so saving it undoes nothing.
  have same : middle = session.store.overwritten
      ((writtenFiles session.store (session.plannedFiles model)).map newText) := by
    have planned : files = session.plannedFiles model := by
      rw [prepare, valid, plan_eq_ok readable] at prepared
      exact (Except.ok.inj prepared).symm
    rw [planned, writeFiles_eq] at result
    exact (Prod.mk.inj result).2.symm
  rw [sync_eq valid readable, perform_eq]
  refine ⟨_, _, _, rfl, faultless.overwritten _, fun target among => ?_⟩
  rw [newTexts, Memory.overwritten_append, ← same,
    Memory.file?_overwritten_of_not_mem _ (path_not_mem_savedText among)]
  exact wrote.holds target among

end Session

end NixKeeper
