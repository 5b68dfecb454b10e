import NixKeeper.Model.Schema
import NixKeeper.Proofs.Document.Basic
import NixKeeper.Proofs.Table

/-! A model is read back from its document, except that an empty text is as good as none. -/

namespace NixKeeper

/-- The user with no empty identity and no empty password. -/
def User.settled (user : User) : User :=
  -- An empty field is read back as a missing one.
  { user with
    gitName := user.gitName.filter (· != "")
    gitEmail := user.gitEmail.filter (· != "")
    hashedPassword := user.hashedPassword.filter (· != "") }

/-- The system settings with no empty preset and no empty hardware file. -/
def System.settled (system : System) : System :=
  -- An empty field is read back as a missing one.
  { system with
    hardwarePreset := system.hardwarePreset.filter (· != "")
    hardwareConfig := system.hardwareConfig.filter (· != "") }

/-- The model with nothing optional that is empty. -/
def Model.settled (model : Model) : Model :=
  { model with system := model.system.settled, users := model.users.map User.settled }

/-- No optional text of the model is empty, which a snapshot would read as none. -/
structure Model.NoneEmpty (model : Model) : Prop where
  preset : model.system.hardwarePreset ≠ some ""
  hardware : model.system.hardwareConfig ≠ some ""
  gitName : ∀ user ∈ model.users, user.gitName ≠ some ""
  gitEmail : ∀ user ∈ model.users, user.gitEmail ≠ some ""
  password : ∀ user ∈ model.users, user.hashedPassword ≠ some ""

/-- An optional text that is not empty is kept. -/
theorem filter_ne_empty {value : Option String} (nonempty : value ≠ some "") :
    value.filter (· != "") = value := by
  cases value with
  | none => rfl
  | some text =>
    -- A text that is there is not the empty one.
    have different : text ≠ "" := fun same => nonempty (same ▸ rfl)
    simp [different]

/-- A model without empty optional texts has settled. -/
theorem Model.NoneEmpty.settled {model : Model} (noneEmpty : model.NoneEmpty) :
    model.settled = model := by
  -- Settling drops empty texts, of which there are none.
  have users : model.users.map User.settled = model.users := by
    refine (List.map_congr_left fun user within => ?_).trans (List.map_id _)
    rw [User.settled, filter_ne_empty (noneEmpty.gitName user within),
      filter_ne_empty (noneEmpty.gitEmail user within),
      filter_ne_empty (noneEmpty.password user within)]
    rfl
  rw [Model.settled, System.settled, filter_ne_empty noneEmpty.preset,
    filter_ne_empty noneEmpty.hardware, users]

/-- An optional text that is kept is not empty. -/
theorem ne_empty_of_filter {value : Option String} (kept : value.filter (· != "") = value) :
    value ≠ some "" := by
  -- The empty text would be filtered out.
  rintro rfl
  cases kept

/-- Exactly the models without empty optional texts have settled. -/
theorem Model.settled_eq_self_iff {model : Model} : model.settled = model ↔ model.NoneEmpty := by
  refine ⟨fun same => ?_, NoneEmpty.settled⟩
  -- Whatever is compared has not changed, be it of the machine or of one of its users.
  have system : model.system.settled = model.system := congrArg Model.system same
  have users : model.users.map User.settled = model.users.map id :=
    (congrArg Model.users same).trans (List.map_id _).symm
  have each := List.map_inj_left.1 users
  exact
    { preset := ne_empty_of_filter (congrArg System.hardwarePreset system)
      hardware := ne_empty_of_filter (congrArg System.hardwareConfig system)
      gitName := fun user among => ne_empty_of_filter (congrArg User.gitName (each user among))
      gitEmail := fun user among => ne_empty_of_filter (congrArg User.gitEmail (each user among))
      password := fun user among => ne_empty_of_filter (congrArg User.hashedPassword (each user among)) }

namespace Document

/-- A field that must be present is looked for entry by entry. -/
theorem required_cons {α : Type} (key name : String) (value : Document)
    (rest : List (String × Document)) (read : Document → Option α) :
    required ((key, value) :: rest) name read =
      if name = key then read value else required rest name read := by
  rw [required, Table.lookup_cons]
  -- The first entry has the name or the rest is asked.
  split <;> rfl

/-- A field that has a default is looked for entry by entry. -/
theorem optional_cons {α : Type} (key name : String) (value : Document)
    (rest : List (String × Document)) (read : Document → Option α) (default : α) :
    optional ((key, value) :: rest) name read default =
      if name = key then read value else optional rest name read default := by
  rw [optional, Table.lookup_cons]
  -- The first entry has the name or the rest is asked.
  by_cases same : name = key
  · rw [if_pos same, if_pos same]
  · rw [if_neg same, if_neg same, optional]

/-- A field that is nowhere takes its default. -/
theorem optional_nil {α : Type} (name : String) (read : Document → Option α) (default : α) :
    optional [] name read default = some default :=
  -- There is no entry, so the default is taken.
  rfl

/-- A list of texts is read back. -/
theorem asListOf_asText_ofTexts (texts : List String) :
    asListOf asText (ofTexts texts) = some texts := by
  -- Each text is read back on its own.
  have each : (texts.map text).mapM asText = some (texts.map id) := mapM_map fun _ _ => rfl
  rw [ofTexts, asListOf, each, List.map_id]

/-- A list of values is read back. -/
theorem asListOf_list_map {α : Type} {write : α → Document} {read : Document → Option α}
    {back : α → α} (each : ∀ value, read (write value) = some (back value)) (values : List α) :
    asListOf read (list (values.map write)) = some (values.map back) := by
  -- Each value is read back on its own.
  rw [asListOf, mapM_map fun value _ => each value]

/-- A list of values that are read back unchanged is read back unchanged. -/
theorem asListOf_list_map_self {α : Type} {write : α → Document} {read : Document → Option α}
    (each : ∀ value, read (write value) = some value) (values : List α) :
    asListOf read (list (values.map write)) = some values := by
  -- Reading back nothing but what was written is the special case.
  have mapped : asListOf read (list (values.map write)) = some (values.map id) :=
    asListOf_list_map each values
  rw [mapped, List.map_id]

/-- A natural number below the bound is read back. -/
theorem asNatBelow_integer {bound n : Nat} (below : n < bound) :
    asNatBelow bound (integer n) = some n :=
  -- The number is below the bound that is checked.
  if_pos below

/-- A table of values is read back. -/
theorem asTableOf_ofTable {α : Type} {write : α → Document} {read : Document → Option α}
    (each : ∀ value, read (write value) = some value) (table : Table α) :
    asTableOf read (ofTable write table) = some table := by
  -- The values are read one by one, and the table is built again from its entries.
  have entries : (table.entries.map fun entry => (entry.1, write entry.2)).mapM
      (fun entry => (read entry.2).map (entry.1, ·)) = some (table.entries.map id) :=
    mapM_map fun entry _ => by rw [each]; rfl
  rw [ofTable, asTableOf, entries, List.map_id, Option.map_some, Table.ofList_entries]

/-- A text that may be null is read back, unless it is empty. -/
theorem asNonEmpty_ofNullable (value : Option String) :
    asNonEmpty (ofNullable value) = some (value.filter (· != "")) := by
  -- A missing value is read as such, and an empty one as missing.
  cases value <;> rfl

end Document

/-- A literal is read back. -/
theorem Literal.ofDocument?_document (literal : Literal) :
    Literal.ofDocument? literal.document = some literal := by
  cases literal with
  | bool value => rfl
  | int value =>
    -- An integer is checked against its bounds on the way back.
    have fits := And.intro value.minValue_le_toInt value.toInt_le
    rw [document, ofDocument?, if_pos fits, Int64.ofInt_toInt]
  | float value => rfl
  | list items =>
    have read := Document.asListOf_asText_ofTexts items
    rw [Document.ofTexts, Document.asListOf] at read
    rw [document, Document.ofTexts, ofDocument?, read]
    rfl
  | text value => rfl

/-- The name of a kind of option is read back. -/
theorem OptionKind.ofName?_name (kind : OptionKind) : ofName? kind.name = some kind := by
  -- Each kind has a name of its own.
  cases kind <;> rfl

/-- The name of a boot loader is read back. -/
theorem Bootloader.ofName?_name (bootloader : Bootloader) :
    ofName? bootloader.name = some bootloader := by
  -- Each loader has a name of its own.
  cases bootloader <;> rfl

/-- A hint is read back. -/
theorem OptionHint.ofDocument?_document (exact : Bool) (hint : OptionHint) :
    OptionHint.ofDocument? exact hint.document = some hint := by
  obtain ⟨name, description, kind, sample⟩ := hint
  -- The example is written only where there is one.
  cases sample <;>
    simp [ofDocument?, document, Document.asRecord, Document.required_cons, Document.optional_cons,
      Document.optional_nil, Document.field?, Document.asText, Document.asName, Document.asNullable,
      OptionKind.ofName?_name]

/-- A package is read back. -/
theorem Package.ofDocument?_document (exact : Bool) (package : Package) :
    Package.ofDocument? exact package.document = some package := by
  -- Every field is written under the name that it is read by.
  simp [ofDocument?, document, Document.asRecord, Document.required_cons, Document.optional_cons,
    Document.asText]

/-- A source is read back. -/
theorem Source.ofDocument?_document (exact : Bool) (source : Source) :
    Source.ofDocument? exact source.document = some source := by
  -- Every field is written under the name that it is read by.
  simp [ofDocument?, document, Document.asRecord, Document.required_cons, Document.asText]

/-- A service is read back. -/
theorem Service.ofDocument?_document (exact : Bool) (service : Service) :
    Service.ofDocument? exact service.document = some service := by
  obtain ⟨name, enabled, options, description, knownOptions⟩ := service
  have hints := Document.asListOf_list_map_self (OptionHint.ofDocument?_document exact)
  have table := Document.asTableOf_ofTable Literal.ofDocument?_document options
  -- Two fields are left out where they have no value.
  cases description <;> cases knownOptions <;>
    simp [ofDocument?, document, Document.asRecord, Document.required_cons, Document.optional_cons,
      Document.optional_nil, Document.field?, Document.asText, Document.asBool, Document.asNullable,
      table, hints]

/-- A user is read back. -/
theorem User.ofDocument?_document (exact : Bool) (user : User) :
    User.ofDocument? exact user.document = some user.settled := by
  -- The lists are read back item by item, and an empty optional field as a missing one.
  have packages := Document.asListOf_list_map_self (Package.ofDocument?_document exact)
  simp [ofDocument?, document, Document.asRecord, Document.required_cons, Document.optional_cons,
    Document.asText, Document.asListOf_asText_ofTexts, packages, Document.asNonEmpty_ofNullable,
    settled]

/-- The system settings are read back. -/
theorem System.ofDocument?_document (exact : Bool) (system : System) :
    System.ofDocument? exact system.document = some system.settled := by
  have packages := Document.asListOf_list_map_self (Package.ofDocument?_document exact)
  have services := Document.asListOf_list_map_self (Service.ofDocument?_document exact)
  -- The fields are looked up by their keys, in the order in which they were written.
  simp [ofDocument?, document, Document.asRecord, Document.required_cons, Document.optional_cons,
    Document.asText, Document.asName, Document.asListOf_asText_ofTexts,
    Document.asNatBelow_integer, Bootloader.ofName?_name, Document.asNonEmpty_ofNullable,
    system.swapSize.toNat_lt, packages, services, settled]

/-- A model is read back from its document. -/
theorem Model.ofDocument?_document (exact : Bool) (model : Model) :
    Model.ofDocument? exact model.document = some model.settled := by
  -- The sources are read back as they are, and the users are settled.
  have sources := Document.asListOf_list_map_self (Source.ofDocument?_document exact)
  have users := Document.asListOf_list_map (User.ofDocument?_document exact) model.users
  simp [ofDocument?, document, Document.asRecord, Document.required_cons, Document.optional_cons,
    Document.asText, System.ofDocument?_document, sources, users, settled]

end NixKeeper
