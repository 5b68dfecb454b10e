import NixKeeper.Proofs.Document.Json
import NixKeeper.Proofs.Model.Schema
import NixKeeper.Sync.Settings

/-! A saved model is read back from a snapshot in JSON. -/

namespace NixKeeper

open Json

/-- Each floating-point number among the options of a service is as asked. -/
def Service.EachFloat (service : Service) (holds : Binary64 → Prop) : Prop :=
  ∀ entry ∈ service.options.entries, ∀ value, entry.2 = .float value → holds value

/-- Each floating-point number among the options of all services is as asked. -/
def Model.EachFloat (model : Model) (holds : Binary64 → Prop) : Prop :=
  ∀ service ∈ model.system.services, service.EachFloat holds

/-- No option of a service has a floating-point number as its value. -/
def Model.FloatFree (model : Model) : Prop :=
  -- Only options of services can be numbers that are not whole.
  ∀ service ∈ model.system.services, ∀ entry ∈ service.options.entries, ∀ value,
    entry.2 ≠ .float value

/-- The initial model has no floating-point number among its options. -/
theorem Model.floatFree_initial : Model.initial.FloatFree := by
  intro service within entry member value same
  -- The services of the initial model have two options, a truth value and a word.
  have among : entry ∈ System.initial.services.flatMap (·.options.entries) :=
    List.mem_flatMap.2 ⟨service, within, member⟩
  rw [System.options_initial, List.mem_cons, List.mem_singleton] at among
  rcases among with rfl | rfl <;> cases same

section

variable {holds : Binary64 → Prop}

/-- A list of documents is plain if each of them is. -/
theorem Document.isPlainWith_list_map {α : Type} {write : α → Document} {values : List α}
    (each : ∀ value ∈ values, IsPlainWith holds (write value)) :
    IsPlainWith holds (.list (values.map write)) :=
  -- The condition is one on each item.
  isPlainWith_list_iff.2 (List.forall_mem_map.2 each)

/-- A list of texts is plain. -/
theorem Document.isPlainWith_ofTexts (texts : List String) : IsPlainWith holds (.ofTexts texts) :=
  -- A text is plain.
  isPlainWith_list_map fun _ _ => isPlainWith_text _

/-- A text that may be null is plain. -/
theorem Document.isPlainWith_ofNullable (value : Option String) :
    IsPlainWith holds (.ofNullable value) := by
  -- A missing value is written as the plain null.
  cases value <;> exact trivial

/-- A literal is plain, if it is no floating-point number or one as asked. -/
theorem Literal.isPlainWith_document {literal : Literal}
    (each : ∀ value, literal = .float value → holds value) : IsPlainWith holds literal.document := by
  cases literal with
  | bool value => exact isPlainWith_bool value
  | int value =>
    -- The integers of literals are within those of documents.
    have small : Int64.maxValue.toInt < UInt64.size := by decide
    exact ⟨value.minValue_le_toInt, Int.lt_of_le_of_lt value.toInt_le small⟩
  | float value => exact each value rfl
  | list items => exact Document.isPlainWith_ofTexts items
  | text value => exact isPlainWith_text value

/-- A hint is plain. -/
theorem OptionHint.isPlainWith_document (hint : OptionHint) : IsPlainWith holds hint.document := by
  obtain ⟨name, description, kind, sample⟩ := hint
  -- The example is written only where there is one.
  cases sample <;> simp [document, Document.field?, isPlainWith_table_iff]

/-- A package is plain. -/
theorem Package.isPlainWith_document (package : Package) : IsPlainWith holds package.document := by
  -- The fields are texts.
  simp [document, isPlainWith_table_iff]

/-- A source is plain. -/
theorem Source.isPlainWith_document (source : Source) : IsPlainWith holds source.document := by
  -- The fields are texts.
  simp [document, isPlainWith_table_iff]

/-- A service is plain, if the floating-point numbers among its options are as asked. -/
theorem Service.isPlainWith_document {service : Service} (each : service.EachFloat holds) :
    IsPlainWith holds service.document := by
  obtain ⟨name, enabled, options, description, knownOptions⟩ := service
  -- All fields but the options are texts, truth values or hints.
  have table : IsPlainWith holds (.ofTable Literal.document options) :=
    isPlainWith_table_iff.2 (List.forall_mem_map.2 fun entry within =>
      Literal.isPlainWith_document (each entry within))
  have hints (hints : List OptionHint) :
      IsPlainWith holds (.list (hints.map OptionHint.document)) :=
    Document.isPlainWith_list_map fun hint _ => hint.isPlainWith_document
  cases description <;> cases knownOptions <;>
    simp [document, Document.field?, isPlainWith_table_iff, table, hints]

/-- A user is plain. -/
theorem User.isPlainWith_document (user : User) : IsPlainWith holds user.document := by
  -- The fields are texts, and lists of plain items.
  have packages : IsPlainWith holds (.list (user.packages.map Package.document)) :=
    Document.isPlainWith_list_map fun package _ => package.isPlainWith_document
  simp [document, isPlainWith_table_iff, packages, Document.isPlainWith_ofTexts,
    Document.isPlainWith_ofNullable]

/-- The system settings are plain, if the floating-point numbers among the options are as asked. -/
theorem System.isPlainWith_document {system : System}
    (each : ∀ service ∈ system.services, service.EachFloat holds) :
    IsPlainWith holds system.document := by
  have packages : IsPlainWith holds (.list (system.packages.map Package.document)) :=
    Document.isPlainWith_list_map fun package _ => package.isPlainWith_document
  have services : IsPlainWith holds (.list (system.services.map Service.document)) :=
    Document.isPlainWith_list_map fun service within =>
      Service.isPlainWith_document (each service within)
  -- The size has thirty-two bits, a plain number up to sixty-four.
  have size : IsPlainWith holds (.integer system.swapSize.toNat) := by
    have negative : Int64.minValue.toInt ≤ 0 := by decide
    have room : UInt32.size < UInt64.size := by decide
    exact ⟨Int.le_trans negative (Int.natCast_nonneg _),
      Int.ofNat_lt.2 (Nat.lt_trans system.swapSize.toNat_lt_size room)⟩
  simp [document, isPlainWith_table_iff, packages, services, size, Document.isPlainWith_ofTexts,
    Document.isPlainWith_ofNullable]

/-- A model is plain, if the floating-point numbers among the options are as asked. -/
theorem Model.isPlainWith_document {model : Model} (each : model.EachFloat holds) :
    IsPlainWith holds model.document := by
  -- Only the settings hold literals.
  have sources : IsPlainWith holds (.list (model.sources.map Source.document)) :=
    Document.isPlainWith_list_map fun source _ => source.isPlainWith_document
  have users : IsPlainWith holds (.list (model.users.map User.document)) :=
    Document.isPlainWith_list_map fun user _ => user.isPlainWith_document
  simp [document, isPlainWith_table_iff, System.isPlainWith_document each, sources, users]

end

/-- A model has a text in JSON. -/
theorem Model.schema_render {path : Path} (json : path.format = .ok .json) (model : Model) :
    Model.schema.render path model = .ok (Json.pretty model.document) := by
  -- The format decides how the document is written.
  simp [Schema.render, json, FileFormat.render?, Model.schema, bind, Except.bind]

/-- A text in JSON that is no document is no model either. -/
theorem Model.isOk_schema_parse {path : Path} (json : path.format = .ok .json) {text : String}
    (unread : Json.parse? text = none) : (Model.schema.parse path text).isOk = false := by
  -- The text is refused before a model is looked for.
  simp [Schema.parse, json, FileFormat.parse?, unread, bind, Except.bind, Except.isOk, Except.toBool]

/-- A model is read back from its text in JSON if its floating-point numbers are. -/
theorem Model.schema_parse_pretty_of_eachFloat {path : Path} {model : Model}
    (json : path.format = .ok .json) (faithful : model.EachFloat IsFaithful) :
    Model.schema.parse path (Json.pretty model.document) = .ok model.settled := by
  have read : Json.parse? (Json.pretty model.document) = some model.document :=
    parse?_write .indented (isPlainWith_document faithful)
  -- The document is read back as it was written, and the model from it.
  simp [Schema.parse, json, FileFormat.parse?, read, Model.schema, Model.ofDocument?_document, bind,
    Except.bind]

/-- A model without floating-point numbers is read back from its text in JSON. -/
theorem Model.schema_parse_pretty {path : Path} {model : Model} (json : path.format = .ok .json)
    (noFloat : model.FloatFree) :
    Model.schema.parse path (Json.pretty model.document) = .ok model.settled :=
  -- There is no number to be compared.
  schema_parse_pretty_of_eachFloat json fun service within entry member value same =>
    absurd same (noFloat service within entry member value)

end NixKeeper
