import NixKeeper.Proofs.Document.Carried
import NixKeeper.Proofs.Model.Snapshot

/-!
Which models a snapshot in JSON reproduces exactly.

Two kinds of values are not reproduced: an optional text that is empty is read as none, and a number
that is not finite leaves null in the snapshot, which is then no model at all.
-/

namespace NixKeeper

open Json

/-- The text that is saved for the model at a place is read back as the model itself. -/
def Model.Reproduced (path : Path) (model : Model) : Prop :=
  -- The model is written, and comes back as it was.
  ∃ content, Model.schema.render path model = .ok content ∧
    Model.schema.parse path content = .ok model

/-- The literal is no floating-point number beyond the finite ones. -/
def Literal.isFinite : Literal → Bool
  -- Only numbers can be infinite.
  | .float value => value.isFinite
  | _ => true

/-- No optional text about the machine is empty. -/
def System.NoneEmpty (system : System) : Prop :=
  system.hardwarePreset ≠ some "" ∧ system.hardwareConfig ≠ some ""

/-- Neither a part of the identity nor the password of the user is empty. -/
def User.NoneEmpty (user : User) : Prop :=
  user.gitName ≠ some "" ∧ user.gitEmail ≠ some "" ∧ user.hashedPassword ≠ some ""

/-- Every option of the service is finite. -/
def Service.IsFinite (service : Service) : Prop :=
  ∀ entry ∈ service.options.entries, entry.2.isFinite = true

/-- The model has nothing that a snapshot would not reproduce. -/
structure Model.Storable (model : Model) : Prop where
  system : model.system.NoneEmpty
  users : ∀ user ∈ model.users, user.NoneEmpty
  finite : ∀ service ∈ model.system.services, service.IsFinite

/-- Each finite number among the options is read back from its text. -/
def Model.FloatsFaithful (model : Model) : Prop :=
  model.EachFloat fun value => value.isFinite = true → IsFaithful value

/-- A model without floating-point numbers has none that is not read back. -/
theorem Model.FloatFree.floatsFaithful {model : Model} (noFloat : model.FloatFree) :
    model.FloatsFaithful :=
  -- There is no number to be compared.
  fun service within entry member value same =>
    absurd same (noFloat service within entry member value)

/-- Each finite number is read back if it is among the options of all services together. -/
theorem Model.floatsFaithful_of_options {model : Model} {options : List (String × Literal)}
    (all : model.system.services.flatMap (·.options.entries) = options)
    (faithful : ∀ entry ∈ options, ∀ value, entry.2 = .float value → value.isFinite = true →
      IsFaithful value) : model.FloatsFaithful := by
  intro service within entry member
  have among : entry ∈ model.system.services.flatMap (·.options.entries) :=
    List.mem_flatMap.2 ⟨service, within, member⟩
  -- Every option of a service is in the list of all options.
  exact faithful entry (all ▸ among)

/-- No optional text of a model is empty if none is about the machine or about a user. -/
theorem Model.noneEmpty_iff {model : Model} :
    model.NoneEmpty ↔ model.system.NoneEmpty ∧ ∀ user ∈ model.users, user.NoneEmpty := by
  -- The same five texts are listed field by field or user by user.
  constructor
  · rintro ⟨preset, hardware, gitName, gitEmail, password⟩
    exact ⟨⟨preset, hardware⟩, fun user among =>
      ⟨gitName user among, gitEmail user among, password user among⟩⟩
  · rintro ⟨⟨preset, hardware⟩, users⟩
    exact ⟨preset, hardware, fun user among => (users user among).1,
      fun user among => (users user among).2.1, fun user among => (users user among).2.2⟩

/-- Where every option is finite, each number among them is read back. -/
theorem Model.FloatsFaithful.eachFloat {model : Model} (faithful : model.FloatsFaithful)
    (finite : ∀ service ∈ model.system.services, service.IsFinite) : model.EachFloat IsFaithful := by
  intro service within entry member value same
  have known := finite service within entry member
  -- The service is finite, so its numbers are those that are faithful.
  rw [same] at known
  exact faithful service within entry member value same known

/-- The null in the place of a number that is not finite is no literal. -/
theorem Literal.ofDocument?_carried {literal : Literal} (infinite : literal.isFinite = false) :
    Literal.ofDocument? (carried literal.document) = none := by
  -- Only a number can fail to be finite.
  cases literal with
  | float value =>
    rw [isFinite] at infinite
    simp [document, carried, infinite, ofDocument?]
  | bool | int | list | text => cases infinite

/-- A service with an option that is not finite is not read. -/
theorem Service.ofDocument?_carried (exact : Bool) {service : Service}
    (infinite : ¬ service.IsFinite) :
    Service.ofDocument? exact (carried service.document) = none := by
  obtain ⟨name, enabled, options, description, knownOptions⟩ := service
  -- One option that cannot be read spoils the table of options, and the table the service.
  obtain ⟨entry, among, bad⟩ : ∃ entry ∈ options.entries, entry.2.isFinite = false := by
    simpa [IsFinite] using infinite
  have unread : Document.asTableOf Literal.ofDocument?
      (carried (.ofTable Literal.document options)) = none := by
    rw [Document.ofTable, carried, carriedEntries_eq_map, List.map_map, Document.asTableOf,
      Document.mapM_eq_none (List.mem_map_of_mem among), Option.map_none]
    dsimp only [Function.comp_apply]
    rw [Literal.ofDocument?_carried bad, Option.map_none]
  cases description <;> cases knownOptions <;>
    simp [ofDocument?, document, Document.asRecord, Document.required_cons, Document.optional_cons,
      Document.field?, Document.asText, Document.asBool, carried, carriedEntries, carriedEntry,
      unread]

/-- A list with an item that is not read once it was carried is not read. -/
theorem Document.asListOf_carried {α : Type} {write : α → Document} {read : Document → Option α}
    {values : List α} {value : α} (among : value ∈ values)
    (unread : read (carried (write value)) = none) :
    asListOf read (.list (carriedItems (values.map write))) = none := by
  -- One item that is not read makes the list unread.
  rw [carriedItems_eq_map, List.map_map, asListOf]
  exact mapM_eq_none (List.mem_map_of_mem among) unread

/-- A model with an option that is not finite is not read. -/
theorem Model.ofDocument?_carried (exact : Bool) {model : Model}
    (infinite : ¬ ∀ service ∈ model.system.services, service.IsFinite) :
    Model.ofDocument? exact (carried model.document) = none := by
  obtain ⟨service, among, bad⟩ : ∃ service ∈ model.system.services, ¬ service.IsFinite := by
    simpa using infinite
  have services := Document.asListOf_carried among (Service.ofDocument?_carried exact bad)
  -- The services are the last field of the system, and the other fields do not make up for them.
  have system : System.ofDocument? exact (carried model.system.document) = none := by
    simp [System.ofDocument?, System.document, Document.asRecord, Document.required_cons,
      Document.optional_cons, carried, carriedEntries, carriedEntry, services]
  simp [ofDocument?, document, Document.asRecord, Document.required_cons, carried, carriedEntries,
    carriedEntry, system]

/-- What is saved in JSON for a model with an option that is not finite is no model. -/
theorem Model.isOk_schema_parse_pretty {path : Path} {model : Model}
    (json : path.format = .ok .json) (faithful : model.FloatsFaithful)
    (infinite : ¬ ∀ service ∈ model.system.services, service.IsFinite) :
    (Model.schema.parse path (Json.pretty model.document)).isOk = false := by
  -- The text is well formed, and the model is not read from the document in it.
  have read : Json.parse? (Json.pretty model.document) = some (carried model.document) :=
    parse?_write_carried .indented (isPlainWith_document faithful)
  simp [Schema.parse, json, FileFormat.parse?, read, Model.schema, Model.ofDocument?_carried _ infinite,
    bind, Except.bind, Except.isOk, Except.toBool]

/-- A snapshot in JSON reproduces exactly the models that are storable. -/
theorem Model.reproduced_iff {path : Path} {model : Model} (json : path.format = .ok .json)
    (faithful : model.FloatsFaithful) : model.Reproduced path ↔ model.Storable := by
  -- The snapshot is rendered without failure, so all depends on what is read from it.
  have saved : model.Reproduced path ↔
      Model.schema.parse path (Json.pretty model.document) = .ok model := by
    simp [Reproduced, schema_render json]
  rw [saved]
  by_cases finite : ∀ service ∈ model.system.services, service.IsFinite
  · rw [schema_parse_pretty_of_eachFloat json (faithful.eachFloat finite), Except.ok.injEq,
      settled_eq_self_iff, noneEmpty_iff]
    exact ⟨fun ⟨system, users⟩ => ⟨system, users, finite⟩,
      fun storable => ⟨storable.system, storable.users⟩⟩
  · -- The snapshot is no model at all.
    refine iff_of_false (fun parsed => ?_) fun storable => finite storable.finite
    have failed := isOk_schema_parse_pretty json faithful finite
    rw [parsed] at failed
    cases failed

/-- The initial model is reproduced. -/
theorem Model.reproduced_initial {path : Path} (json : path.format = .ok .json) :
    Model.initial.Reproduced path := by
  have noFloat := Model.floatFree_initial
  -- The initial model has no number and leaves no optional text empty.
  have users : ∀ user ∈ Model.initial.users, user.NoneEmpty := by
    simp [Model.initial, User.NoneEmpty, User.named]
  refine (reproduced_iff json noFloat.floatsFaithful).2 ⟨⟨nofun, nofun⟩, users, ?_⟩
  intro service within entry member
  have none := noFloat service within entry member
  cases literal : entry.2 with
  | float value => exact absurd literal (none value)
  | bool | int | list | text => rfl

end NixKeeper
