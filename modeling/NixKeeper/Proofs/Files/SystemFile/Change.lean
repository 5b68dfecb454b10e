import NixKeeper.Proofs.Files.SystemFile.Users

/-!
What a single statement of the system file can change.

All that is proved about whole readings step by step follows from the kinds of change named here.
-/

namespace NixKeeper.Files.SystemFile

variable {renames : Renames} {placeholder name : String} {now : Progress} {statement : Statement}

/-- A second block of a user is opened as one that says nothing. -/
theorem openUser_of_mem (again : name ∈ now.seen) :
    openUser placeholder now name = { now with context := .user none 0 } := by
  -- The list of opened names decides.
  rw [openUser, if_pos (List.contains_iff_mem.2 again)]

/-- The first block of a user claims the user. -/
theorem openUser_of_not_mem (new : name ∉ now.seen) :
    openUser placeholder now name =
      ⟨withUsers now.model (claimUser now.model.users name placeholder).2,
        .user (some (claimUser now.model.users name placeholder).1) 0, now.seen ++ [name]⟩ := by
  -- The list of opened names decides.
  rw [openUser, if_neg fun again => new (List.contains_iff_mem.1 again)]
  rfl

/-- A statement opens the block of a user outside of lists and blocks. -/
def OpensUser (now : Progress) (statement : Statement) (name : String) : Prop :=
  now.context = .top ∧ classify statement.clean = .userStart name

/-- How a statement can change the model and the list of the users whose blocks were opened. -/
inductive Change (renames : Renames) (placeholder : String) (now : Progress) (statement : Statement) :
    Model → List String → Prop where
  /-- At most settings change, as distinct from packages and services. -/
  | settings (system : System) (packages : system.packages = now.model.system.packages)
      (services : system.services = now.model.system.services)
      (hardware : system.hardwareConfig = now.model.system.hardwareConfig)
      (preset : system.hardwarePreset = now.model.system.hardwarePreset ∨
        ∃ name ≠ "", system.hardwarePreset = some name) :
      Change renames placeholder now statement { now.model with system } now.seen
  | packages (text : List Char) :
      Change renames placeholder now statement
        (now.model.withPackages (collectPackages renames now.model.system.packages text)) now.seen
  /-- The first block of a user is opened. -/
  | user (name : String) (opens : OpensUser now statement name) (new : name ∉ now.seen) :
      Change renames placeholder now statement
        (withUsers now.model (claimUser now.model.users name placeholder).2) (now.seen ++ [name])
  | userLine (index : Nat) :
      Change renames placeholder now statement
        (withUsers now.model (now.model.users.modify index (readUserLine statement.clean))) now.seen
  /-- The block of a service is opened. -/
  | service (name : String) :
      Change renames placeholder now statement
        (now.model.withServices (claimService now.model.system.services name).2) now.seen
  /-- A service is switched on. -/
  | serviceSwitch (name : String) :
      Change renames placeholder now statement
        (now.model.withServices ((claimService now.model.system.services name).2.modify
          (claimService now.model.system.services name).1
            fun service => { service with enabled := true })) now.seen
  | serviceLine (index : Nat) :
      Change renames placeholder now statement
        (now.model.withServices
          (now.model.system.services.modify index (readServiceLine statement.clean))) now.seen

/-- Nothing has to change. -/
theorem Change.none : Change renames placeholder now statement now.model now.seen :=
  -- Nothing changes, which is a change of the settings to what they are.
  .settings now.model.system rfl rfl rfl (.inl rfl)

/-- A block of a user that is opened claims the user or says nothing. -/
theorem change_openUser (opens : OpensUser now statement name) :
    Change renames placeholder now statement (openUser placeholder now name).model
      (openUser placeholder now name).seen := by
  -- A block that has been opened before is passed over.
  by_cases again : name ∈ now.seen
  · rw [openUser_of_mem again]
    exact .none
  · rw [openUser_of_not_mem again]
    exact .user name opens again

/-- A line outside of lists and blocks changes one of the things named. -/
theorem change_readTop (top : now.context = .top) :
    Change renames placeholder now statement (readTop renames placeholder now statement).model
      (readTop renames placeholder now statement).seen := by
  rw [readTop]
  -- One kind of change for each meaning that is about a list or a block.
  cases meaning : classify statement.clean with
  | userStart name => exact change_openUser ⟨top, meaning⟩
  | serviceStart name => exact .service name
  | serviceEnable name => exact .serviceSwitch name
  | packagesStart => exact .packages _
  | nothing => exact .none
  | hardwarePreset name =>
    have named := ne_empty_of_classify_hardwarePreset meaning
    exact .settings _ rfl rfl rfl (.inr ⟨name, named, rfl⟩)
  | hostname | timezone | locale | keyboardLayout | experimentalFeatures | swapSize | bootloader =>
    exact .settings _ rfl rfl rfl (.inl rfl)

/-- A line in the block of a user changes at most the user. -/
theorem change_readUser (index : Option Nat) (depth : Nat) :
    Change renames placeholder now statement (readUser now index depth statement.clean).model
      (readUser now index depth statement.clean).seen := by
  unfold readUser
  split
  · exact .none
  · -- Lines of inner blocks change nothing.
    split
    · exact .userLine _
    · exact .none
  · exact .none

/-- A line in the block of a service changes at most the service. -/
theorem change_readService (index depth : Nat) :
    Change renames placeholder now statement (readService now index depth statement.clean).model
      (readService now index depth statement.clean).seen := by
  unfold readService
  -- A brace changes the context only, and lines of inner blocks nothing.
  split
  · exact .none
  · split
    · exact .serviceLine _
    · exact .none

/-- Every statement changes one of the things named. -/
theorem change_readStatement (renames : Renames) (placeholder : String) (now : Progress)
    (statement : Statement) :
    Change renames placeholder now statement (readStatement renames placeholder now statement).model
      (readStatement renames placeholder now statement).seen := by
  rw [readStatement]
  -- What a statement means is decided by the context.
  split
  · exact change_readTop ‹_›
  · exact .packages _
  · exact change_readUser _ _
  · exact change_readService _ _

/-- What no change of a statement spoils is true to the end. -/
theorem model_foldl_of_change {good : Model → Prop} {found : List Statement}
    (step : ∀ statement ∈ found, ∀ now next : Progress,
      Change renames placeholder now statement next.model next.seen → good now.model → good next.model)
    {start : Progress} (initially : good start.model) :
    good (found.foldl (readStatement renames placeholder) start).model := by
  -- Statement by statement from the first one on.
  induction found generalizing start with
  | nil => exact initially
  | cons statement rest ih =>
    obtain ⟨here, later⟩ := List.forall_mem_cons.1 step
    exact ih later (here _ _ (change_readStatement renames placeholder start statement) initially)

end NixKeeper.Files.SystemFile
