import NixKeeper.Proofs.Sync.Usage

/-!
A rehearsal foretells a sync.

It decides on the files as they are, while a sync turns to the snapshot only after it has written the
other files. These are never the snapshot, so both come to the same decision.
-/

namespace NixKeeper

namespace Session

variable {session : Session Memory} {model : Model}

/-- The snapshot is due exactly if a save would write it. -/
theorem snapshotChanges_eq (faultless : session.store.Faultless)
    (json : session.snapshotPath.format = .ok .json) (model : Model) :
    session.snapshotChanges model = (session.saving model).map Option.isSome := by
  -- The two conditions are written in different ways, one as the negation of the other.
  rw [saving_eq faultless json, snapshotChanges, Model.schema_render json, faultless.contains]
  by_cases known : session.checksum = some (Sha256.checksum (Json.pretty model.document))
  · cases session.store.file? session.snapshotPath <;>
      simp [known, bind, Except.bind, pure, Except.pure, Except.map]
  · simp [known, bind, Except.bind, pure, Except.pure, Except.map]

/-- A rehearsal tells the changed files in the order of the plan, and then the snapshot if it is due. -/
theorem rehearse_eq (faultless : session.store.Faultless)
    (json : session.snapshotPath.format = .ok .json) (model : Model) (files : List PlannedFile) :
    session.rehearse model files =
      .ok ⟨true, ((files.filter (·.isChanged)).map fun file =>
          "[dry-run] Would write " ++ file.path.text) ++
        (session.savedText model).map fun entry => "[dry-run] Would save " ++ entry.1.text, []⟩ := by
  -- Whether the snapshot would be saved is the same question as in a real run.
  have due := snapshotChanges_eq faultless json model
  unfold rehearse savedText
  rw [due, saving_eq faultless json]
  split <;> simp [SyncReport.empty, bind, Except.bind, pure, Except.pure, Except.map]

/-- A rehearsal with a valid model and files that can be read rehearses the plan. -/
theorem sync_rehearsed (valid : model.validate = .ok ()) (readable : session.Readable model) :
    session.sync model true =
      (((session.rehearse model (session.plannedFiles model)).map
        SyncReport.concluded).mapError .file, session) := by
  -- The preparation is that of a real run.
  unfold sync prepare
  rw [valid, plan_eq_ok readable]
  rfl

/-- A rehearsal tells that the snapshot would be saved, if it would be. -/
theorem exists_rehearsed_save (faultless : session.store.Faultless)
    (json : session.snapshotPath.format = .ok .json) (valid : model.validate = .ok ())
    {content : String} (due : session.saving model = .ok (some content)) :
    ∃ report, (session.sync model true).1 = .ok report ∧
      "[dry-run] Would save " ++ session.snapshotPath.text ∈ report.actions := by
  have rehearsed := sync_rehearsed valid (readable_of_faultless faultless model)
  rw [rehearse_eq faultless json] at rehearsed
  -- The snapshot is the only file that is told after the planned ones.
  have single : session.savedText model = [(session.snapshotPath, content)] := by
    unfold savedText
    rw [due]
  have told := List.mem_map_of_mem (f := fun entry : Path × String =>
    "[dry-run] Would save " ++ entry.1.text) (single ▸ List.mem_singleton_self _)
  rw [rehearsed]
  exact ⟨_, rfl, List.mem_append_right _ told⟩

/-- A rehearsal leaves the session as it is. -/
theorem sync_true_snd (session : Session Memory) (model : Model) :
    (session.sync model true).2 = session := by
  unfold sync
  -- No branch of a rehearsal hands on another session.
  cases session.prepare model <;> rfl

/-- What a rehearsal foretells of a sync: the same failure, or the same files one by one. -/
def Foretells : Except SyncError SyncReport → Except SyncError SyncReport → Prop
  | .error foretold, .error error => foretold = error
  | .ok rehearsed, .ok done =>
    -- The same files are named in the same order, in two kinds of words.
    ∃ written saved : List Path,
      rehearsed.actions = (written.map fun path => "[dry-run] Would write " ++ path.text) ++
        (saved.map fun path => "[dry-run] Would save " ++ path.text) ∧
      done.actions = (written.map fun path => "Wrote " ++ path.text) ++
        (saved.map fun path => "Saved " ++ path.text) ∧
      rehearsed.errors = [] ∧ done.errors = []
  | _, _ => False

/-- Without faults a rehearsal foretells the sync from the same session. -/
theorem foretells_sync (faultless : session.store.Faultless)
    (json : session.snapshotPath.format = .ok .json) (model : Model) :
    Foretells (session.sync model true).1 (session.sync model false).1 := by
  cases valid : model.validate with
  | error error =>
    -- The model is looked at first, whatever is to be done with the plan.
    have refused (dryRun : Bool) : (session.sync model dryRun).1 = .error (.model error) := by
      simp [sync, prepare, valid]
    rw [refused, refused]
    exact rfl
  | ok _ =>
    have readable := readable_of_faultless faultless model
    have unfailing : session.saveFailure model = [] := by
      unfold saveFailure
      rw [saving_eq faultless json]
    rw [sync_rehearsed valid readable, rehearse_eq faultless json, sync_eq valid readable, perform_eq,
      writtenFiles_eq faultless, failedFiles_eq faultless, unfailing]
    -- Both reports are made from the changed files of the plan and from what is saved.
    refine ⟨((session.plannedFiles model).filter (·.isChanged)).map PlannedFile.path,
      (session.savedText model).map (·.1), ?_, ?_, rfl, rfl⟩
    · simp [List.map_map, Function.comp_def]
    · simp [List.map_map, Function.comp_def]

/-- Whatever is done with a session, it continues the one that was opened. -/
theorem continues_foldl {former : Session Memory} (faultless : former.store.Faultless)
    (operations : List Operation) : former.Continues (operations.foldl after former) :=
  -- Each operation keeps what the session was opened with.
  List.foldlRecOn operations after (.refl faultless)
    fun _ continues operation _ => continues.after operation

/--
A rehearsal changes nothing and foretells the sync, whatever was done with the session before.

Both fail with the same error, or both succeed: the rehearsal would write exactly the files that the
sync writes, in the same order, and would save the snapshot exactly if the sync saves it. The session to
begin with may remember any checksum, also that of a snapshot which is gone.
-/
theorem rehearsal_foretells_sync (faultless : session.store.Faultless)
    (json : session.snapshotPath.format = .ok .json) (operations : List Operation) (model : Model) :
    let reached := operations.foldl after session
    (reached.sync model true).2 = reached ∧
      Foretells (reached.sync model true).1 (reached.sync model false).1 := by
  intro reached
  -- Whatever was done before, the place is without faults and the snapshot where it was.
  have continues := continues_foldl faultless operations
  refine ⟨sync_true_snd reached model, foretells_sync continues.faultless ?_ model⟩
  rw [continues.snapshotPath]
  exact json

/-- A save is foretold also where the checksum of a model is remembered whose snapshot is gone. -/
theorem rehearsal_foretells_sync_of_lost_snapshot :
    let session : Session Memory :=
      { withSettings (Memory.ofFiles (.ofList [("etc/configuration.nix", "edited")])) (.ofText "etc")
          .initial with
        checksum := some (Sha256.checksum (Json.pretty Model.initial.document)) }
    session.snapshotChanges .initial = .ok true ∧
    (∃ report, (session.sync .initial true).1 = .ok report ∧
      "[dry-run] Would save etc/metadata.json" ∈ report.actions) ∧
    (session.sync .initial true).2 = session ∧
      Foretells (session.sync .initial true).1 (session.sync .initial false).1 ∧
    let reached := [Operation.save .initial, .load].foldl after session
    (reached.sync .initial true).2 = reached ∧
      Foretells (reached.sync .initial true).1 (reached.sync .initial false).1 := by
  intro session
  have faultless : session.store.Faultless := ⟨rfl, rfl⟩
  have json : session.snapshotPath.format = .ok .json := by decide
  have foretells := rehearsal_foretells_sync faultless json
  -- The checksum would do, but there is no snapshot that has it.
  have gone : session.store.file? session.snapshotPath = none := by decide
  have saving : session.saving .initial = .ok (some (Json.pretty Model.initial.document)) := by
    rw [saving_eq faultless json, gone]
    exact congrArg Except.ok (if_neg fun both => Bool.false_ne_true both.2)
  have due : session.snapshotChanges .initial = .ok true := by
    rw [snapshotChanges_eq faultless json, saving]
    rfl
  have place : session.snapshotPath.text = "etc/metadata.json" := by decide
  have told := exists_rehearsed_save faultless json (by decide) saving
  rw [place] at told
  exact ⟨due, told, (foretells [] .initial).1, (foretells [] .initial).2,
    foretells [.save .initial, .load] .initial⟩

end Session

end NixKeeper
