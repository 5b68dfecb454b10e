import NixKeeper.Proofs.Sync.Steps

/-!
Sessions in use: what is done with them, and what others do to the files meanwhile.

What holds of a session at some moment is proved along the events that led to that moment. An operation
overwrites files and may remember another checksum, and does nothing else.
-/

namespace NixKeeper

/-- What is done with a session. -/
inductive Operation where
  | load
  | save (model : Model)
  | sync (model : Model) (dryRun : Bool)

/-- What happens to a session: it is used, or somebody else changes the files. -/
inductive Event (σ : Type) where
  | used (operation : Operation)
  | changed (change : σ → σ)

namespace Session

section

variable {σ : Type} [Storage σ]

/-- The session after an operation, whatever the operation answers. -/
def after (session : Session σ) : Operation → Session σ
  -- Loading may set the checksum, too.
  | .load => session.load.2
  | .save model => (session.saveSnapshot model).2
  | .sync model dryRun => (session.sync model dryRun).2

/-- The session after an event. -/
def meet (session : Session σ) : Event σ → Session σ
  | .used operation => session.after operation
  -- Whoever changes the files from outside does not tell the session.
  | .changed change => { session with store := change session.store }

end

variable {session : Session Memory}

/-- A load overwrites no file. -/
theorem exists_load_eq (session : Session Memory) :
    ∃ checksum, session.load.2 = { session with checksum } := by
  rw [load_snd, readSnapshot]
  -- Only a snapshot that was read and understood is remembered.
  split
  · exact ⟨session.checksum, rfl⟩
  · exact ⟨session.checksum, rfl⟩
  · split
    · exact ⟨_, rfl⟩
    · exact ⟨session.checksum, rfl⟩

/-- A sync changes nothing, or it is none for practice and carries out the plan for a valid model. -/
theorem sync_snd_cases (session : Session Memory) (model : Model) (dryRun : Bool) :
    (session.sync model dryRun).2 = session ∨
      model.validate = .ok () ∧ dryRun = false ∧ (session.sync model dryRun).2 =
        { session with
          store := session.store.overwritten (session.newTexts model)
          checksum := session.savedChecksum model } := by
  cases valid : model.validate with
  | error error => exact .inl (by simp [sync, prepare, valid])
  | ok _ =>
    -- A sync stops at an invalid model, at a plan that fails, and where it is for practice.
    cases planned : session.plan model with
    | error error => exact .inl (by simp [sync, prepare, valid, planned])
    | ok files =>
      cases dryRun with
      | true => exact .inl (by simp [sync, prepare, valid, planned])
      | false =>
        refine .inr ⟨rfl, rfl, ?_⟩
        rw [sync_eq valid (readable_of_plan planned), perform_eq]

/-- An operation overwrites files and may remember another checksum, and does nothing else. -/
theorem exists_after (session : Session Memory) (operation : Operation) :
    ∃ texts checksum, session.after operation =
      { session with store := session.store.overwritten texts, checksum } := by
  -- Each operation is known from its equation.
  cases operation with
  | load =>
    obtain ⟨checksum, loaded⟩ := exists_load_eq session
    exact ⟨[], checksum, loaded⟩
  | save model => exact ⟨_, _, congrArg Prod.snd (saveSnapshot_eq session model)⟩
  | sync model dryRun =>
    rcases sync_snd_cases session model dryRun with same | ⟨-, -, synced⟩
    · exact ⟨[], session.checksum, same⟩
    · exact ⟨_, _, synced⟩

/-- A later session at the place of a former one, with the same settings and without faults. -/
structure Continues (former later : Session Memory) : Prop where
  root : later.root = former.root
  settings : later.settings = former.settings
  faultless : later.store.Faultless

/-- A session without faults continues itself. -/
theorem Continues.refl (faultless : session.store.Faultless) : session.Continues session :=
  -- The session is compared with itself.
  ⟨rfl, rfl, faultless⟩

/-- An operation continues what the session before it continues. -/
theorem Continues.after {former : Session Memory} (continues : former.Continues session)
    (operation : Operation) : former.Continues (session.after operation) := by
  obtain ⟨texts, checksum, shape⟩ := exists_after session operation
  -- An operation writes some texts and sets the checksum.
  rw [shape]
  exact ⟨continues.root, continues.settings, continues.faultless.overwritten texts⟩

/-- A change of the files that brings in no fault continues what the session before it continues. -/
theorem Continues.changed {former : Session Memory} (continues : former.Continues session)
    {store : Memory} (faultless : store.Faultless) : former.Continues { session with store } :=
  -- The root and the settings are not in the store.
  ⟨continues.root, continues.settings, faultless⟩

/-- The snapshot stays at its place. -/
theorem Continues.snapshotPath {former : Session Memory} (continues : former.Continues session) :
    session.snapshotPath = former.snapshotPath := by
  -- The path is made of the root and the settings.
  rw [Session.snapshotPath, Session.snapshotPath, continues.root, continues.settings]

end Session

end NixKeeper
