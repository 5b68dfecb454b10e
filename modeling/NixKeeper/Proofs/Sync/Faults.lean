import NixKeeper.Proofs.Failure
import NixKeeper.Proofs.Sync.Target

/-!
A sync of files some of which are out of reach.

All reading and checking comes before the first write, so a sync that is refused has changed nothing. A
write that fails is reported, and keeps nothing else from being written.
-/

namespace NixKeeper

/-- A file has to be written if it is missing or holds another text. -/
theorem PlannedFile.isChanged_iff (file : PlannedFile) :
    file.isChanged = true ↔ file.existing ≠ some file.content :=
  -- The flag is the comparison of the two texts.
  bne_iff_ne

/-- Nothing is done any more when a report is concluded. -/
@[simp] theorem SyncReport.actions_concluded (report : SyncReport) :
    report.concluded.actions = report.actions :=
  -- Only the flag is set at the end.
  rfl

/-- A report is concluded as a success exactly if there are no errors in it. -/
@[simp] theorem SyncReport.success_concluded_iff {report : SyncReport} :
    report.concluded.success = true ↔ report.concluded.errors = [] :=
  -- The errors of the report are not touched when it is concluded.
  List.isEmpty_iff

namespace Session

variable {session : Session Memory} {model : Model}

/-- A plan reads the files one after another, and shows each as it is and as it should be. -/
theorem plan_eq_mapM (session : Session Memory) (model : Model) :
    session.plan model = (session.targets model).mapM fun target =>
      (Storage.readOptional session.store target.path).map target.planned := by
  -- A generated file is planned from what is there, and so is the hardware file.
  have file (kind : FileKind) : session.planFile model kind =
      (Storage.readOptional session.store (session.fileTarget model kind).path).map
        (session.fileTarget model kind).planned := by
    rw [planFile, fileTarget]
    dsimp only
    cases Storage.readOptional session.store (session.filePath kind) with
    | error error => rfl
    | ok existing => cases existing <;> rfl
  have hardware : session.planHardware model =
      ((session.hardwareContent model).map session.hardwareTarget).toList.mapM fun target =>
        (Storage.readOptional session.store target.path).map target.planned := by
    rw [planHardware]
    cases session.hardwareContent model with
    | none => rfl
    | some content =>
      dsimp only [Option.map_some, Option.toList_some]
      rw [List.mapM_cons, List.mapM_nil, hardwareTarget]
      dsimp only
      cases Storage.readOptional session.store session.hardwarePath <;> rfl
  rw [plan, hardware, targets, List.mapM_append, List.mapM_map]
  simp only [Function.comp_def, ← file]

/-- The files as they are and as they should be, where all of them can be read. -/
def plannedFiles (session : Session Memory) (model : Model) : List PlannedFile :=
  (session.targets model).map fun target => target.planned (session.store.file? target.path)

/-- All files of a model that are there can be read. -/
def Readable (session : Session Memory) (model : Model) : Prop :=
  ∀ target ∈ session.targets model, target.path ∉ session.store.unreadable

/-- A plan that can be made shows all files. -/
theorem plan_eq_ok (readable : session.Readable model) :
    session.plan model = .ok (session.plannedFiles model) := by
  rw [plan_eq_mapM, plannedFiles]
  -- Each target is planned on its own, and its file can be read.
  refine mapM_eq_ok fun target among => ?_
  rw [Memory.readOptional_eq, if_neg (readable target among)]
  rfl

/-- Where a plan can be made, all files can be read. -/
theorem readable_of_plan {files : List PlannedFile} (planned : session.plan model = .ok files) :
    session.Readable model := by
  intro target among hidden
  rw [plan_eq_mapM] at planned
  -- The plan holds every target, each as it was read.
  obtain ⟨file, read⟩ := exists_of_mapM_eq_ok planned target among
  rw [Memory.readOptional_eq, if_pos hidden] at read
  cases read

/-- A plan fails at a file that is there and cannot be read. -/
theorem exists_of_plan_eq_error {error : FileError} (failed : session.plan model = .error error) :
    ∃ target ∈ session.targets model,
      target.path ∈ session.store.unreadable ∧ error = .lockFailed target.path.text := by
  rw [plan_eq_mapM] at failed
  -- A plan fails where one of its readings does.
  obtain ⟨target, among, unread⟩ := exists_of_mapM_eq_error failed
  rw [Memory.readOptional_eq] at unread
  split at unread
  · exact ⟨target, among, ‹_›, (Except.error.inj unread).symm⟩
  · cases unread

/-- The files that are written: those that have changed and can be written. -/
def writtenFiles (store : Memory) (files : List PlannedFile) : List PlannedFile :=
  files.filter fun file => file.isChanged ∧ file.path ∉ store.unwritable

/-- The files that have changed and cannot be written. -/
def failedFiles (store : Memory) (files : List PlannedFile) : List PlannedFile :=
  files.filter fun file => file.isChanged ∧ file.path ∈ store.unwritable

/-- What is written for a file of a plan. -/
def newText (file : PlannedFile) : Path × String :=
  (file.path, file.content)

/-- What is reported of a file that cannot be written. -/
def writeFailure (file : PlannedFile) : String :=
  "Failed to write " ++ file.path.text ++ ": " ++ (FileError.lockFailed file.path.text).message

section

variable {store : Memory} {file : PlannedFile}

/-- A file that has not changed is passed over. -/
theorem writeFiles_cons_of_same (same : file.isChanged = false) (report : SyncReport)
    (rest : List PlannedFile) :
    writeFiles store report (file :: rest) = writeFiles store report rest := by
  -- An unchanged file is passed over.
  simp [writeFiles, same]

/-- A file that has changed and can be written is written. -/
theorem writeFiles_cons_of_writable (changed : file.isChanged = true)
    (writable : file.path ∉ store.unwritable) (report : SyncReport) (rest : List PlannedFile) :
    writeFiles store report (file :: rest) =
      writeFiles (store.written file.path file.content)
        { report with actions := report.actions ++ ["Wrote " ++ file.path.text] } rest := by
  -- A changed file is written, and the action is noted.
  simp [writeFiles, changed, Memory.write_eq, writable]

/-- A file that has changed and cannot be written is reported. -/
theorem writeFiles_cons_of_unwritable (changed : file.isChanged = true)
    (refused : file.path ∈ store.unwritable) (report : SyncReport) (rest : List PlannedFile) :
    writeFiles store report (file :: rest) =
      writeFiles store { report with errors := report.errors ++ [writeFailure file] } rest := by
  -- A refused file is noted among the errors, and the next one has its turn.
  unfold writeFiles writeFailure
  simp only [List.foldl_cons, changed, if_true, Memory.write_eq, refused]

end

/-- Every changed file is written or reported by itself, whatever becomes of the others. -/
theorem writeFiles_eq (store : Memory) (report : SyncReport) (files : List PlannedFile) :
    writeFiles store report files =
      ({ report with
          actions := report.actions ++
            (writtenFiles store files).map fun file => "Wrote " ++ file.path.text
          errors := report.errors ++ (failedFiles store files).map writeFailure },
        store.overwritten ((writtenFiles store files).map newText)) := by
  -- The files one by one: each changes the report or the store, and never what can be written.
  induction files generalizing store report with
  | nil => simp [writeFiles, writtenFiles, failedFiles, Memory.overwritten]
  | cons file rest ih =>
    cases changed : file.isChanged with
    | false =>
      rw [writeFiles_cons_of_same changed, ih]
      simp [writtenFiles, failedFiles, changed]
    | true =>
      by_cases refused : file.path ∈ store.unwritable
      · rw [writeFiles_cons_of_unwritable changed refused, ih]
        simp [writtenFiles, failedFiles, changed, refused]
      · have faults : (store.written file.path file.content).unwritable = store.unwritable := rfl
        rw [writeFiles_cons_of_writable changed refused, ih]
        simp [writtenFiles, failedFiles, changed, refused, faults, Memory.overwritten, newText]

/-- What saving a model comes to: the text of the snapshot, or nothing if it holds the model already. -/
def saving (session : Session Memory) (model : Model) : Except FileError (Option String) :=
  match Model.schema.render session.snapshotPath model with
  | .error error => .error error
  | .ok content =>
    -- A snapshot that the session remembers and that is still there is not written again.
    if session.checksum = some (Sha256.checksum content) ∧
        Storage.contains session.store session.snapshotPath then .ok none
    else if session.snapshotPath ∈ session.store.unwritable then
      .error (.lockFailed session.snapshotPath.text)
    else .ok (some content)

/-- The text that is written to save a model is that of the model. -/
theorem render_of_saving {content : String} (saved : session.saving model = .ok (some content)) :
    Model.schema.render session.snapshotPath model = .ok content := by
  unfold saving at saved
  -- Only the last branch writes a text, and that is the rendered one.
  cases rendered : Model.schema.render session.snapshotPath model with
  | error error =>
    rw [rendered] at saved
    cases saved
  | ok other =>
    rw [rendered] at saved
    dsimp only at saved
    split at saved
    · cases saved
    · split at saved
      · cases saved
      · rw [Option.some.inj (Except.ok.inj saved)]

/-- The texts that are written to save a model. -/
def savedText (session : Session Memory) (model : Model) : List (Path × String) :=
  -- At most one text is saved.
  match session.saving model with
  | .ok (some content) => [(session.snapshotPath, content)]
  | _ => []

/-- What is remembered of the snapshot after a model has been saved. -/
def savedChecksum (session : Session Memory) (model : Model) : Option String :=
  -- Only a snapshot that was written changes what is remembered.
  match session.saving model with
  | .ok (some content) => some (Sha256.checksum content)
  | _ => session.checksum

/-- What is reported if the model cannot be saved. -/
def saveFailure (session : Session Memory) (model : Model) : List String :=
  -- The error is that of rendering or of writing.
  match session.saving model with
  | .error error => ["Failed to save " ++ session.snapshotPath.text ++ ": " ++ error.message]
  | .ok _ => []

/-- A model that can be written at a path is written in a format that the path names. -/
theorem exists_format_of_render {path : Path} {content : String}
    (rendered : Model.schema.render path model = .ok content) :
    ∃ format, path.format = .ok format := by
  obtain ⟨format, known, -⟩ := bind_eq_ok_iff.1 rendered
  -- Rendering asks for the format first.
  exact ⟨format, known⟩

/-- A save writes the text of the snapshot and remembers it, or changes nothing. -/
theorem saveSnapshot_eq (session : Session Memory) (model : Model) :
    session.saveSnapshot model = ((session.saving model).map Option.isSome,
      { session with
        store := session.store.overwritten (session.savedText model)
        checksum := session.savedChecksum model }) := by
  unfold saveSnapshot savedText savedChecksum saving
  dsimp only
  cases Model.schema.render session.snapshotPath model with
  | error error => rfl
  | ok content =>
    dsimp only
    split
    · rfl
    · rw [Memory.write_eq]
      -- A snapshot that cannot be written is neither left nor remembered.
      by_cases refused : session.snapshotPath ∈ session.store.unwritable
      · rw [if_pos refused, if_pos refused]
        rfl
      · rw [if_neg refused, if_neg refused]
        rfl

/-- Writing other files than the snapshot makes no difference for the saving of a model. -/
theorem saving_overwritten {texts : List (Path × String)}
    (apart : ∀ format, session.snapshotPath.format = .ok format →
      session.snapshotPath ∉ texts.map (·.1)) :
    ({ session with store := session.store.overwritten texts } : Session Memory).saving model =
      session.saving model := by
  obtain ⟨unreadable, unwritable⟩ := session.store.faults_overwritten texts
  have place : ({ session with store := session.store.overwritten texts } : Session Memory).snapshotPath =
      session.snapshotPath := rfl
  unfold saving
  rw [place]
  cases rendered : Model.schema.render session.snapshotPath model with
  | error error => rfl
  | ok content =>
    -- The snapshot is there after the writes if it was there before, and as open to writing.
    obtain ⟨format, known⟩ := exists_format_of_render rendered
    have contains : Storage.contains (session.store.overwritten texts) session.snapshotPath =
        Storage.contains session.store session.snapshotPath := by
      simp only [Storage.contains, unreadable,
        Memory.file?_overwritten_of_not_mem session.store (apart format known)]
    dsimp only
    rw [contains, unwritable]

/-- To save a model no path is written but that of the snapshot, which names a format. -/
theorem exists_format_of_mem_savedText {path : Path}
    (within : path ∈ (session.savedText model).map (·.1)) :
    path = session.snapshotPath ∧ ∃ format, session.snapshotPath.format = .ok format := by
  unfold savedText at within
  -- Nothing is saved unless the model was rendered.
  split at within
  · exact ⟨List.mem_singleton.1 within, exists_format_of_render (render_of_saving ‹_›)⟩
  · cases within

/-- Saving a model writes none of the files. -/
theorem path_not_mem_savedText {other : Model} {target : Target}
    (among : target ∈ session.targets other) :
    target.path ∉ (session.savedText model).map (·.1) := by
  intro within
  -- Only the snapshot is saved, and it is no target.
  obtain ⟨same, format, known⟩ := exists_format_of_mem_savedText within
  exact path_ne_snapshotPath known among same

/-- All that a sync writes where the files can be read, with the paths. -/
def newTexts (session : Session Memory) (model : Model) : List (Path × String) :=
  (writtenFiles session.store (session.plannedFiles model)).map newText ++ session.savedText model

/-- The paths of written files are those of the files. -/
theorem map_path_writtenFiles_sublist (session : Session Memory) (model : Model) :
    (((writtenFiles session.store (session.plannedFiles model)).map newText).map (·.1)).Sublist
      ((session.targets model).map Target.path) := by
  -- The written files are those of the planned ones that pass a filter.
  have paths : (session.targets model).map Target.path =
      (session.plannedFiles model).map PlannedFile.path := by
    rw [plannedFiles, List.map_map]
    rfl
  rw [paths, List.map_map]
  exact List.filter_sublist.map _

/-- The snapshot is none of the files that are written, if it can be written at all. -/
theorem snapshotPath_not_mem_writtenFiles (session : Session Memory) (model : Model)
    (format : FileFormat) (known : session.snapshotPath.format = .ok format) :
    session.snapshotPath ∉
      ((writtenFiles session.store (session.plannedFiles model)).map newText).map (·.1) :=
  -- What is written are targets.
  fun within => snapshotPath_not_mem_targets known
    ((map_path_writtenFiles_sublist session model).subset within)

/-- Nothing is written twice. -/
theorem nodup_newTexts (session : Session Memory) (model : Model) :
    ((session.newTexts model).map (·.1)).Nodup := by
  have files := (nodup_targets session model).sublist (map_path_writtenFiles_sublist session model)
  have single : ((session.savedText model).map (·.1)).Nodup := by
    unfold savedText
    split
    · exact List.nodup_singleton _
    · exact List.nodup_nil
  unfold newTexts
  rw [List.map_append]
  -- The snapshot is written only under a name that none of the files can have.
  refine List.nodup_append.2 ⟨files, single, fun path among other within same => ?_⟩
  obtain ⟨rfl, format, known⟩ := exists_format_of_mem_savedText within
  exact snapshotPath_not_mem_writtenFiles session model format known (same ▸ among)

/-- A plan is carried out as far as the files can be written. -/
theorem perform_eq (session : Session Memory) (model : Model) :
    session.perform model (session.plannedFiles model) =
      (⟨true,
        ((writtenFiles session.store (session.plannedFiles model)).map fun file =>
            "Wrote " ++ file.path.text) ++
          (session.savedText model).map fun entry => "Saved " ++ entry.1.text,
        (failedFiles session.store (session.plannedFiles model)).map writeFailure ++
          session.saveFailure model⟩,
        { session with
          store := session.store.overwritten (session.newTexts model)
          checksum := session.savedChecksum model }) := by
  -- The model is saved as if no file had been written before.
  have saving := @saving_overwritten session model _
    (snapshotPath_not_mem_writtenFiles session model)
  rw [newTexts, Memory.overwritten_append]
  unfold perform
  rw [writeFiles_eq]
  dsimp only
  rw [saveSnapshot_eq]
  unfold savedText savedChecksum saveFailure
  rw [saving]
  cases session.saving model with
  | error error =>
    simp only [Except.map, SyncReport.empty, List.nil_append, List.map_nil, List.append_nil]
  | ok saved =>
    cases saved with
    | none =>
      simp only [Except.map, SyncReport.empty, Option.isSome, List.nil_append, List.map_nil,
        List.append_nil]
    | some content =>
      simp only [Except.map, SyncReport.empty, Option.isSome, List.nil_append, List.map_singleton,
        List.append_nil]
      rfl

/-- A sync with a valid model and files that can be read carries the plan out. -/
theorem sync_eq (valid : model.validate = .ok ()) (readable : session.Readable model) :
    session.sync model false =
      (.ok (session.perform model (session.plannedFiles model)).1.concluded,
        (session.perform model (session.plannedFiles model)).2) := by
  unfold sync prepare
  -- The model is valid and every target can be read, so the engine goes on to the writing.
  rw [valid, plan_eq_ok readable]
  dsimp only
  rw [if_neg Bool.false_ne_true]

/--
A sync that is refused changes nothing; every other one writes what it can, and tells the rest.

It is refused for a model that is not valid or a file that is there and cannot be read. Otherwise the
files are as before but for the planned ones that have changed and can be written, and the snapshot if
it is saved; and the errors are those of the other changed files, in the order of the plan, and of the
snapshot if it could not be saved. A file has changed if it is missing or holds another text than the
planned one. The report is a success exactly if there are no errors.
-/
theorem sync_with_faults (session : Session Memory) (model : Model) :
    match session.sync model false with
    | (.error error, after) =>
      after = session ∧
        ((∃ cause, model.validate = .error cause ∧ error = .model cause) ∨
          model.validate = .ok () ∧ ∃ target ∈ session.targets model,
            target.path ∈ session.store.unreadable ∧
              error = .file (.lockFailed target.path.text))
    | (.ok report, after) =>
      model.validate = .ok () ∧ session.plan model = .ok (session.plannedFiles model) ∧
        after = { session with
          store := session.store.overwritten (session.newTexts model)
          checksum := session.savedChecksum model } ∧
        (∀ path, after.store.file? path =
          ((session.newTexts model).lookup path).or (session.store.file? path)) ∧
        report.errors =
          (failedFiles session.store (session.plannedFiles model)).map writeFailure ++
            session.saveFailure model ∧
        (∀ file ∈ session.plannedFiles model,
          file.isChanged = true ↔ file.existing ≠ some file.content) ∧
        (report.success = true ↔ report.errors = []) := by
  cases valid : model.validate with
  | error cause =>
    -- The model is looked at before any file.
    have refused : session.sync model false = (.error (.model cause), session) := by
      unfold sync prepare
      rw [valid]
    rw [refused]
    exact ⟨rfl, .inl ⟨cause, rfl, rfl⟩⟩
  | ok _ =>
    cases planned : session.plan model with
    | error error =>
      -- All files are read before the first one is written.
      have refused : session.sync model false = (.error (.file error), session) := by
        unfold sync prepare
        rw [valid, planned]
      obtain ⟨target, among, hidden, rfl⟩ := exists_of_plan_eq_error planned
      rw [refused]
      exact ⟨rfl, .inr ⟨rfl, target, among, hidden, rfl⟩⟩
    | ok files =>
      have readable := readable_of_plan planned
      rw [sync_eq valid readable, perform_eq]
      refine ⟨rfl, planned.symm.trans (plan_eq_ok readable), rfl, ?_, rfl,
        fun file _ => file.isChanged_iff, SyncReport.success_concluded_iff⟩
      exact session.store.file?_overwritten (nodup_newTexts session model)

end Session

end NixKeeper
