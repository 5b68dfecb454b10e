import NixKeeper.Proofs.Files.Generated
import NixKeeper.Proofs.Managed.Merge
import NixKeeper.Proofs.Storage.Memory
import NixKeeper.Proofs.Storage.Path
import NixKeeper.Sync.Session

/-! The files that a plan and a check look at, each with what it should be and how it may depart. -/

namespace NixKeeper

/-- A file that is kept in step with a model. -/
structure Target where
  path : Path
  /-- What the file should be, given what it is. -/
  content : Option String → String
  /-- How a text departs from what the file should be. -/
  drift : String → Option Drift

namespace Target

/-- The file as a plan shows it. -/
def planned (target : Target) (existing : Option String) : PlannedFile :=
  ⟨target.path, target.content existing, existing⟩

/-- How the file departs, which it does if it is missing. -/
def found (target : Target) : Option String → Option Drift
  -- A file that is there is compared by the target's own rule.
  | none => some .missing
  | some current => target.drift current

/-- What a plan writes does not depart from what the file should be. -/
def Settles (target : Target) : Prop :=
  ∀ existing, target.drift (target.content existing) = none

/-- A file that departs is a file that has to be written. -/
theorem Settles.isChanged {target : Target} (settles : target.Settles) {existing : Option String}
    (departs : (target.found existing).isSome) : (target.planned existing).isChanged = true := by
  cases existing with
  | none => rfl
  | some current =>
    -- A text that the plan leaves as it is would not depart.
    have different : target.content (some current) ≠ current := by
      intro same
      have settled := settles (some current)
      rw [same] at settled
      simp [found, settled] at departs
    simpa [planned, PlannedFile.isChanged] using Ne.symm different

/-- A file that is as the plan has it does not depart. -/
theorem Settles.found_content {target : Target} (settles : target.Settles)
    (existing : Option String) : target.found (some (target.content existing)) = none :=
  -- This is what settling asks for.
  settles existing

end Target

namespace Session

variable (session : Session Memory) (model : Model)

/-- What a generated file should be, given what it is. -/
def plannedContent (kind : FileKind) : Option String → String
  | some current =>
    -- A file that is not merged is replaced whole.
    if session.merges kind then
      String.ofList (Managed.merge current.toList (session.generate model kind).toList)
    else session.generate model kind
  | none => session.generate model kind

/-- A generated file. -/
def fileTarget (kind : FileKind) : Target :=
  -- The comparison is with what would be generated, and not with what would be written.
  ⟨session.filePath kind, session.plannedContent model kind,
    fun current => session.fileDrift kind current (session.generate model kind)⟩

/-- The hardware file. -/
def hardwareTarget (content : String) : Target :=
  ⟨session.hardwarePath, fun _ => content, hardwareDrift content⟩

/-- All files but the snapshot. -/
def targets : List Target :=
  -- The hardware file is a target only if it is to be written.
  FileKind.all.map (session.fileTarget model) ++
    ((session.hardwareContent model).map session.hardwareTarget).toList

variable {session model}

/-- Each of the generated files is one of the files that are kept in step. -/
theorem fileTarget_mem_targets (session : Session Memory) (model : Model) (kind : FileKind) :
    session.fileTarget model kind ∈ session.targets model :=
  -- Every kind of file is in the list of kinds.
  List.mem_append_left _ (List.mem_map_of_mem (by cases kind <;> decide))

/-- A planned text that is merged has the generated region. -/
theorem exists_locate_plannedContent {kind : FileKind} {fresh : Managed.Region}
    (merges : session.merges kind = true)
    (made : Managed.locate (session.generate model kind).toList = some fresh)
    (existing : Option String) :
    ∃ region, Managed.locate (session.plannedContent model kind existing).toList = some region ∧
      region.managed = fresh.managed := by
  cases existing with
  | none => exact ⟨fresh, made, rfl⟩
  | some current =>
    rw [plannedContent, if_pos merges, String.toList_ofList]
    -- A merge takes the generated text as a whole or puts its region in place of the old one.
    cases present : Managed.locate current.toList with
    | none =>
      rw [Managed.merge_of_locate_existing_eq_none present]
      exact ⟨fresh, made, rfl⟩
    | some region => exact ⟨_, Managed.locate_merge present made, rfl⟩

/-- A generated file settles if its text has a region wherever only the region counts. -/
theorem settles_fileTarget {kind : FileKind}
    (hasRegion : session.merges kind = true →
      (Managed.locate (session.generate model kind).toList).isSome) :
    (session.fileTarget model kind).Settles := by
  intro existing
  cases merges : session.merges kind with
  | false =>
    -- What is not merged is compared as a whole.
    have whole : session.plannedContent model kind existing = session.generate model kind := by
      cases existing <;> simp [plannedContent, merges]
    simp [fileTarget, fileDrift, merges, whole]
  | true =>
    obtain ⟨fresh, made⟩ := Option.isSome_iff_exists.1 (hasRegion merges)
    obtain ⟨region, reached, same⟩ := exists_locate_plannedContent merges made existing
    simp [fileTarget, fileDrift, merges, reached, made, same]

/-- The hardware file settles. -/
theorem settles_hardwareTarget (session : Session Memory) (content : String) :
    (session.hardwareTarget content).Settles := by
  -- Equal texts have equal checksums.
  simp [Target.Settles, hardwareTarget, hardwareDrift]

/-- All files settle, unless an edited manifest has its closing marker in the name of the machine. -/
theorem settles_of_mem_targets
    (noEnd : session.settings.preserveManifestEdits = true →
      ¬ Managed.endMarker <:+: model.system.hostname.toList)
    {target : Target} (within : target ∈ session.targets model) : target.Settles := by
  rcases List.mem_append.1 within with generated | hardware
  · obtain ⟨kind, -, rfl⟩ := List.mem_map.1 generated
    -- The name of the machine stands before the region of the manifest alone.
    refine settles_fileTarget fun merges => ?_
    rw [generate, String.toList_ofList]
    refine Files.isSome_locate_generate session.renames model kind fun manifest => noEnd ?_
    simpa [Session.merges, manifest] using merges
  · obtain ⟨content, -, rfl⟩ := Option.map_eq_some_iff.1 (Option.mem_toList.1 hardware)
    exact settles_hardwareTarget session content

/-- The files stand under the program's own names. -/
theorem map_path_targets_sublist (session : Session Memory) (model : Model) :
    ((session.targets model).map Target.path).Sublist (Path.ownNames.map session.root.join) := by
  -- The names are those of the generated files, and behind them that of the hardware file.
  have own : Path.ownNames.map session.root.join =
      (FileKind.all.map (session.fileTarget model)).map Target.path ++ [session.hardwarePath] :=
    rfl
  rw [own, targets, List.map_append]
  refine (List.Sublist.refl _).append ?_
  -- The hardware file is the last one, if it is to be written.
  cases session.hardwareContent model <;> simp [hardwareTarget]

/-- The files stand at different paths. -/
theorem nodup_targets (session : Session Memory) (model : Model) :
    ((session.targets model).map Target.path).Nodup :=
  -- Each target has a file name of its own.
  (Path.nodup_map_join_ownNames session.root).sublist (map_path_targets_sublist session model)

/-- A snapshot in a structured format is none of the files. -/
theorem snapshotPath_not_mem_targets {format : FileFormat}
    (known : session.snapshotPath.format = .ok format) :
    session.snapshotPath ∉ (session.targets model).map Target.path := by
  intro within
  -- The files bear the names of the program, which are in no structured format.
  obtain ⟨name, own, same⟩ :=
    List.mem_map.1 ((map_path_targets_sublist session model).subset within)
  rw [← same] at known
  exact Path.format_join_ownName_ne_ok session.root own format known

/-- None of the files is the snapshot. -/
theorem path_ne_snapshotPath {format : FileFormat} {target : Target}
    (known : session.snapshotPath.format = .ok format) (within : target ∈ session.targets model) :
    target.path ≠ session.snapshotPath := by
  intro same
  -- The snapshot has an ending that no target has.
  have outside := @snapshotPath_not_mem_targets session model _ known
  rw [← same] at outside
  exact outside (List.mem_map_of_mem within)

end Session

end NixKeeper
