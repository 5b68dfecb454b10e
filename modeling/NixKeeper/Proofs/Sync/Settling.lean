import NixKeeper.Proofs.Sync.Usage

/-!
A sync that is repeated does nothing.

Between two syncs others may write behind the managed regions whatever they like. What stands before
the regions remains the generated beginning, which no merge changes, so a sync finds its own work as it
has left it.
-/

namespace NixKeeper

/-- A file that has been written as planned is planned again as it is. -/
def Target.Rests (target : Target) (existing : Option String) : Prop :=
  target.content (some (target.content existing)) = target.content existing

namespace Session

variable {session : Session Memory} {model : Model}

/-- The files of a session that are merged, so far as they are there, are steady. -/
def Steady (session : Session Memory) : Prop :=
  -- The manifest is replaced as a whole, so nothing is asked of it.
  ∀ kind ≠ .manifest, ∀ text, session.store.file? (session.filePath kind) = some text →
    Managed.Steady text.toList

/-- A generated file that is merged is steady. -/
theorem steady_generate (session : Session Memory) (model : Model) {kind : FileKind}
    (other : kind ≠ .manifest) : Managed.Steady (session.generate model kind).toList := by
  -- The file is the generated one, as a text.
  rw [generate, String.toList_ofList]
  exact Files.steady_generate session.renames model other

/-- A planned text is steady if the text that is there is. -/
theorem steady_plannedContent {kind : FileKind} (other : kind ≠ .manifest) {existing : Option String}
    (steady : ∀ text, existing = some text → Managed.Steady text.toList) :
    Managed.Steady (session.plannedContent model kind existing).toList := by
  have generated := steady_generate session model other
  have merges : session.merges kind = true := by simp [Session.merges, other]
  -- The text is the generated one or what a merge makes of both.
  cases existing with
  | none => exact generated
  | some text =>
    rw [plannedContent, if_pos merges, String.toList_ofList]
    obtain ⟨region, made, -⟩ := generated
    exact (steady text rfl).merge (by rw [made, Option.isSome_some])

/-- A planned text keeps what follows the first closing marker of a steady one. -/
theorem ending?_plannedContent {kind : FileKind} (other : kind ≠ .manifest) {text : String}
    (steady : Managed.Steady text.toList) :
    Managed.ending? (session.plannedContent model kind (some text)).toList =
      Managed.ending? text.toList := by
  -- Both files that are no manifest are merged.
  have merges : session.merges kind = true := by simp [Session.merges, other]
  obtain ⟨region, made, -⟩ := steady_generate session model other
  obtain ⟨current, present, -⟩ := steady
  rw [plannedContent, if_pos merges, String.toList_ofList]
  exact Managed.ending?_merge (by rw [present, Option.isSome_some]) (by rw [made, Option.isSome_some])

/-- A text that has been planned is planned again as it is, if it is replaced as a whole or steady. -/
theorem plannedContent_plannedContent {kind : FileKind} {existing : Option String}
    (steady : session.merges kind = true → kind ≠ .manifest ∧
      ∀ text, existing = some text → Managed.Steady text.toList) :
    session.plannedContent model kind (some (session.plannedContent model kind existing)) =
      session.plannedContent model kind existing := by
  -- A text that is not merged is planned without regard to what is there.
  cases merges : session.merges kind with
  | false => cases existing <;> simp [plannedContent, merges]
  | true =>
    obtain ⟨other, steady⟩ := steady merges
    have made := steady_generate session model other
    cases existing with
    | none =>
      simp only [plannedContent, merges, if_true]
      rw [made.merge_self, String.ofList_toList]
    | some text =>
      obtain ⟨region, located, -⟩ := made
      simp only [plannedContent, merges, if_true, String.toList_ofList]
      rw [(steady text rfl).merge_merge (by rw [located, Option.isSome_some])]

/-- All files rest where the merged ones are steady. -/
theorem Steady.rests (steady : session.Steady)
    (whole : session.settings.preserveManifestEdits = false) {target : Target}
    (within : target ∈ session.targets model) :
    target.Rests (session.store.file? target.path) := by
  rcases List.mem_append.1 within with generated | hardware
  · obtain ⟨kind, -, rfl⟩ := List.mem_map.1 generated
    refine plannedContent_plannedContent fun merges => ?_
    -- Only the manifest is not merged.
    have other : kind ≠ .manifest := by
      rintro rfl
      simp [Session.merges, whole] at merges
    exact ⟨other, steady kind other⟩
  · -- The hardware file is replaced as a whole.
    obtain ⟨content, -, rfl⟩ := Option.map_eq_some_iff.1 (Option.mem_toList.1 hardware)
    rfl

/-- A sync does nothing where no file has changed and the snapshot holds the model. -/
theorem sync_eq_self (faultless : session.store.Faultless) (valid : model.validate = .ok ())
    (unchanged : ∀ file ∈ session.plannedFiles model, file.isChanged = false)
    (saved : session.saving model = .ok none) :
    session.sync model false = (.ok ⟨true, [], []⟩, session) := by
  -- No file has changed, so none is written, and the snapshot is not saved either.
  have written : writtenFiles session.store (session.plannedFiles model) = [] := by
    rw [writtenFiles_eq faultless]
    exact List.filter_eq_nil_iff.2 fun file among => by simp [unchanged file among]
  rw [sync_eq valid (readable_of_faultless faultless model), perform_eq]
  unfold newTexts savedText savedChecksum saveFailure
  rw [written, failedFiles_eq faultless, saved]
  rfl

/-- Without faults a sync repeats itself to no effect where all files rest. -/
theorem exists_sync_sync (faultless : session.store.Faultless)
    (json : session.snapshotPath.format = .ok .json) (valid : model.validate = .ok ())
    (rests : ∀ target ∈ session.targets model, target.Rests (session.store.file? target.path)) :
    ∃ report after, session.sync model false = (.ok report, after) ∧ report.success = true ∧
      after.sync model false = (.ok ⟨true, [], []⟩, after) := by
  obtain ⟨report, middle, store, checksum, synced, success, wrote, saved⟩ :=
    exists_synced faultless json valid
  refine ⟨report, _, synced, success,
    sync_eq_self saved.faultless valid ?_ (saved.saving_eq_none json)⟩
  -- The files are the same as before, and each holds what is planned for it.
  refine List.forall_mem_map.2 fun target among => ?_
  have written := saved.file?_target json wrote among
  have rested := rests target among
  unfold Target.Rests at rested
  rw [Target.planned, PlannedFile.isChanged]
  dsimp only
  rw [written, rested, bne_self_eq_false]

/-- Saving a model leaves the generated files alone. -/
theorem file?_after_save (session : Session Memory) (model : Model) (kind : FileKind) :
    (session.after (.save model)).store.file? (session.filePath kind) =
      session.store.file? (session.filePath kind) := by
  -- The snapshot is at none of the paths of these files.
  have outside : session.filePath kind ∉ (session.savedText model).map (·.1) :=
    @path_not_mem_savedText session model model _ (fileTarget_mem_targets session model kind)
  rw [after, saveSnapshot_eq]
  dsimp only
  exact session.store.file?_overwritten_of_not_mem outside

/-- Whatever is done with a session, a generated file is left as it is or written as planned. -/
theorem file?_after (faultless : session.store.Faultless) (operation : Operation) (kind : FileKind) :
    (session.after operation).store.file? (session.filePath kind) =
        session.store.file? (session.filePath kind) ∨
      ∃ model, (session.after operation).store.file? (session.filePath kind) =
        some (session.plannedContent model kind (session.store.file? (session.filePath kind))) := by
  -- Only a sync touches the files of the machine, and only one with a valid model.
  cases operation with
  | load =>
    obtain ⟨checksum, loaded⟩ := exists_load_eq session
    rw [after, loaded]
    exact .inl rfl
  | save model => exact .inl (file?_after_save session model kind)
  | sync model dryRun =>
    rw [after]
    rcases sync_snd_cases session model dryRun with same | ⟨valid, rfl, -⟩
    · exact .inl (congrArg (fun later : Session Memory => later.store.file? _) same)
    · obtain ⟨report, store, checksum, synced, -, holds⟩ := exists_sync_targets faultless valid
      rw [synced]
      exact .inr ⟨model, holds _ (fileTarget_mem_targets session model kind)⟩

/-- What is done with a session keeps its merged files steady. -/
theorem Steady.after (steady : session.Steady) (faultless : session.store.Faultless)
    (operation : Operation) : (session.after operation).Steady := by
  obtain ⟨texts, checksum, shape⟩ := exists_after session operation
  intro kind other text found
  -- The files stand where they stood.
  have place : (session.after operation).filePath kind = session.filePath kind := by
    rw [shape]
    rfl
  rw [place] at found
  rcases file?_after faultless operation kind with same | ⟨model, planned⟩
  · exact steady kind other text (same.symm.trans found)
  · obtain rfl := Option.some.inj (planned.symm.trans found)
    exact steady_plannedContent other fun text there => steady kind other text there

/-- Others only write behind the first closing marker of a file that is merged, if it is there. -/
def KeepsBeginnings (session : Session Memory) : Event Memory → Prop
  | .used _ => True
  -- A change from outside touches what stands behind the region, and nothing else.
  | .changed change => ∃ kind ≠ .manifest, ∃ ending,
      change = fun store => store.edited (session.filePath kind) fun text =>
        String.ofList (Managed.withEnding ending text.toList)

/-- A new ending of one merged file keeps the merged files steady. -/
theorem Steady.edited (steady : session.Steady) (kind : FileKind) (ending : List Char) :
    ({ session with
      store := session.store.edited (session.filePath kind) fun text =>
        String.ofList (Managed.withEnding ending text.toList) } : Session Memory).Steady := by
  intro otherKind other text found
  change Memory.file? _ (session.filePath otherKind) = some text at found
  rw [Memory.file?_edited] at found
  split at found
  · rename_i here
    -- The edited text was steady before, and its beginning is the same.
    obtain ⟨former, there, rfl⟩ := Option.map_eq_some_iff.1 found
    rw [String.toList_ofList]
    exact (steady otherKind other former (here ▸ there)).withEnding ending
  · exact steady otherKind other text found

/-- Every event keeps the place and the merged files as they have to be for a sync that rests. -/
theorem Continues.meet {former : Session Memory} (continues : former.Continues session)
    (steady : session.Steady) {event : Event Memory} (keeps : former.KeepsBeginnings event) :
    former.Continues (session.meet event) ∧ (session.meet event).Steady := by
  cases event with
  | used operation => exact ⟨continues.after operation, steady.after continues.faultless operation⟩
  | changed change =>
    obtain ⟨kind, -, ending, rfl⟩ := keeps
    -- A change from outside is an edit behind a closing marker, which keeps the file steady.
    have place : former.filePath kind = session.filePath kind := by
      rw [filePath, filePath, continues.root]
    rw [place]
    exact ⟨continues.changed (continues.faultless.edited _ _), steady.edited kind ending⟩

/-- What holds of the files of a session and of its place holds after any events of that kind. -/
theorem continues_foldl_meet (faultless : session.store.Faultless) (steady : session.Steady)
    {events : List (Event Memory)} (keeps : ∀ event ∈ events, session.KeepsBeginnings event) :
    session.Continues (events.foldl Session.meet session) ∧
      (events.foldl Session.meet session).Steady := by
  refine List.foldlRecOn events Session.meet
    (motive := fun reached => session.Continues reached ∧ reached.Steady)
    ⟨.refl faultless, steady⟩ fun reached kept event among => ?_
  -- Both facts are needed for the next event, so they are carried together.
  exact kept.1.meet kept.2 (keeps event among)

/--
A sync that is repeated does nothing, whatever others have written behind the managed regions.

In a place where neither the system file nor the home file is there to begin with, a valid model can be
synced at any time; a second sync of it reports no action, writes nothing and leaves the session as it
is. No sync changes what follows the first closing marker of one of these files.
-/
theorem repeated_sync_does_nothing (faultless : session.store.Faultless)
    (json : session.snapshotPath.format = .ok .json)
    (whole : session.settings.preserveManifestEdits = false)
    (missing : ∀ kind ≠ .manifest, session.store.file? (session.filePath kind) = none)
    {events : List (Event Memory)} (keeps : ∀ event ∈ events, session.KeepsBeginnings event) :
    let reached := events.foldl meet session
    (∀ model, model.validate = .ok () →
      ∃ report after, reached.sync model false = (.ok report, after) ∧ report.success = true ∧
        after.sync model false = (.ok ⟨true, [], []⟩, after)) ∧
    ∀ model dryRun, ∀ kind ≠ .manifest, ∀ text,
      reached.store.file? (reached.filePath kind) = some text →
        ∃ later ending, (reached.sync model dryRun).2.store.file? (reached.filePath kind) = some later ∧
          Managed.ending? text.toList = some ending ∧ Managed.ending? later.toList = some ending := by
  intro reached
  -- Where no file is there yet, all of them are steady.
  have begun : session.Steady := by
    intro kind other text found
    rw [missing kind other] at found
    cases found
  obtain ⟨continues, steady⟩ := continues_foldl_meet faultless begun keeps
  constructor
  · intro model valid
    refine exists_sync_sync continues.faultless ?_ valid fun target among => steady.rests ?_ among
    · rw [continues.snapshotPath]
      exact json
    · rw [continues.settings]
      exact whole
  · intro model dryRun kind other text there
    have before := steady kind other text there
    obtain ⟨region, present, -⟩ := id before
    have ending := Managed.ending?_of_locate present
    rcases file?_after continues.faultless (.sync model dryRun) kind with same | ⟨planned, written⟩
    · exact ⟨text, _, same.trans there, ending, ending⟩
    · -- What is planned for the file has the ending of the text that is there.
      rw [there] at written
      exact ⟨_, _, written, ending, (ending?_plannedContent other before).trans ending⟩

/-- The initial model is synced twice to no effect after a hand has written behind its system file. -/
theorem repeated_sync_does_nothing_after_edit :
    let session := withSettings (Memory.ofFiles (.ofList [("etc/flake.nix", "edited")]))
      (.ofText "etc") .initial
    let events := [Event.used (.sync .initial false),
      .changed fun store => store.edited (session.filePath .system) fun text =>
        String.ofList (Managed.withEnding "edited".toList text.toList)]
    let reached := events.foldl meet session
    ∃ report after, reached.sync .initial false = (.ok report, after) ∧ report.success = true ∧
      after.sync .initial false = (.ok ⟨true, [], []⟩, after) := by
  intro session events reached
  have missing (kind : FileKind) (other : kind ≠ .manifest) :
      session.store.file? (session.filePath kind) = none := by
    cases kind with
    | manifest => exact absurd rfl other
    | system => decide
    | home => decide
  -- The hand writes behind the region of the system file only.
  have keeps : ∀ event ∈ events, session.KeepsBeginnings event := by
    refine List.forall_mem_cons.2 ⟨trivial, List.forall_mem_singleton.2 ?_⟩
    exact ⟨.system, by decide, "edited".toList, rfl⟩
  exact (repeated_sync_does_nothing ⟨rfl, rfl⟩ (by decide) rfl missing keeps).1 .initial
    (by decide)

end Session

end NixKeeper
