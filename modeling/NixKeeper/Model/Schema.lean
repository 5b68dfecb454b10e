import NixKeeper.Document.Basic
import NixKeeper.Model.Basic
import NixKeeper.Model.Renames

/-!
Models and tables of renames as documents.

Reading is told whether a list in the place of a record may hold more than the record's fields; an
exact format refuses that.
-/

namespace NixKeeper

/-- The document of a literal, which shows its kind by its own. -/
def Literal.document : Literal → Document
  -- A list holds texts only.
  | .bool value => .bool value
  | .int value => .integer value.toInt
  | .float value => .float value
  | .list items => .ofTexts items
  | .text value => .text value

/--
The literal that a document stands for.

A whole number beyond sixty-four bits with a sign stands for the floating-point number nearest to it.
-/
def Literal.ofDocument? : Document → Option Literal
  | .bool value => some (.bool value)
  | .integer value =>
    if Int64.minValue.toInt ≤ value ∧ value ≤ Int64.maxValue.toInt then some (.int (Int64.ofInt value))
    -- The number is rounded once, from its exact value.
    else some (.float (Binary64.ofRatio (value < 0) value.natAbs 1))
  | .float value => some (.float value)
  | .list items => (items.mapM Document.asText).map .list
  | .text value => some (.text value)
  | _ => none

/-- The name of a kind of option. -/
def OptionKind.name : OptionKind → String
  -- These are the names in the documents.
  | .boolean => "boolean"
  | .string => "string"
  | .int => "int"
  | .list => "list"
  | .other => "other"

/-- The kind of option that has a name. -/
def OptionKind.ofName? (name : String) : Option OptionKind :=
  [boolean, string, int, list, other].find? (·.name == name)

/-- The document of a hint, which leaves out what is not known. -/
def OptionHint.document (hint : OptionHint) : Document :=
  -- The example is written only where there is one.
  .table ([
    ("name", .text hint.name),
    ("description", .text hint.description),
    ("type", .text hint.kind.name)] ++ Document.field? "example" .text hint.sample)

/-- The hint that a document holds. -/
def OptionHint.ofDocument? (exact : Bool) (document : Document) : Option OptionHint := do
  -- The example may be missing, or null.
  let fields ← document.asRecord exact ["name", "description", "type", "example"]
  let name ← Document.required fields "name" Document.asText
  let description ← Document.required fields "description" Document.asText
  let kind ← Document.required fields "type" (Document.asName exact OptionKind.ofName?)
  let sample ← Document.optional fields "example" (Document.asNullable Document.asText) none
  return { name, description, kind, sample }

/-- The document of a package. -/
def Package.document (package : Package) : Document :=
  .table [("name", .text package.name), ("description", .text package.description)]

/-- The package that a document holds. -/
def Package.ofDocument? (exact : Bool) (document : Document) : Option Package := do
  -- The description may be missing.
  let fields ← document.asRecord exact ["name", "description"]
  let name ← Document.required fields "name" Document.asText
  let description ← Document.optional fields "description" Document.asText ""
  return { name, description }

/-- The document of a source. -/
def Source.document (source : Source) : Document :=
  .table [("name", .text source.name), ("url", .text source.url)]

/-- The source that a document holds. -/
def Source.ofDocument? (exact : Bool) (document : Document) : Option Source := do
  -- Both fields are asked for.
  let fields ← document.asRecord exact ["name", "url"]
  let name ← Document.required fields "name" Document.asText
  let url ← Document.required fields "url" Document.asText
  return { name, url }

/-- The name of a boot loader. -/
def Bootloader.name : Bootloader → String
  -- These are the names in the documents.
  | .systemdBoot => "systemd-boot"
  | .grub => "grub"

/-- The boot loader that has a name. -/
def Bootloader.ofName? (name : String) : Option Bootloader :=
  [systemdBoot, grub].find? (·.name == name)

/-- The document of a service, which leaves out what is not known. -/
def Service.document (service : Service) : Document :=
  -- The last two fields are written only where there is something to be written.
  .table ([
    ("name", .text service.name),
    ("enabled", .bool service.enabled),
    ("options", .ofTable Literal.document service.options)] ++
    Document.field? "description" .text service.description ++
    Document.field? "knownOptions" (fun hints => .list (hints.map OptionHint.document))
      service.knownOptions)

/-- The service that a document holds. -/
def Service.ofDocument? (exact : Bool) (document : Document) : Option Service := do
  -- The name and the switch are asked for, and the rest may be missing.
  let fields ← document.asRecord exact
    ["name", "enabled", "options", "description", "knownOptions"]
  let name ← Document.required fields "name" Document.asText
  let enabled ← Document.required fields "enabled" Document.asBool
  let options ← Document.optional fields "options" (Document.asTableOf Literal.ofDocument?) .empty
  let description ← Document.optional fields "description" (Document.asNullable Document.asText) none
  let knownOptions ← Document.optional fields "knownOptions"
    (Document.asNullable (Document.asListOf (OptionHint.ofDocument? exact))) none
  return { name, enabled, options, description, knownOptions }

/-- A text that may be null; an empty one stands for null. -/
def Document.asNonEmpty (document : Document) : Option (Option String) :=
  -- An empty text is no name and no address, so it says nothing.
  (document.asNullable Document.asText).map fun value => value.filter (· != "")

/-- The document of a user. -/
def User.document (user : User) : Document :=
  -- The optional fields are written as null where they are missing.
  .table [
    ("username", .text user.username),
    ("description", .text user.description),
    ("shell", .text user.shell),
    ("extraGroups", .ofTexts user.extraGroups),
    ("packages", .list (user.packages.map Package.document)),
    ("gitName", .ofNullable user.gitName),
    ("gitEmail", .ofNullable user.gitEmail),
    ("hashedPassword", .ofNullable user.hashedPassword)]

/-- The user that a document holds. -/
def User.ofDocument? (exact : Bool) (document : Document) : Option User := do
  -- The name and the shell are asked for, and the rest may be missing.
  let fields ← document.asRecord exact
    ["username", "description", "shell", "extraGroups", "packages", "gitName", "gitEmail",
      "hashedPassword"]
  let username ← Document.required fields "username" Document.asText
  let description ← Document.optional fields "description" Document.asText ""
  let shell ← Document.required fields "shell" Document.asText
  let extraGroups ← Document.optional fields "extraGroups" (Document.asListOf Document.asText) []
  let packages ← Document.optional fields "packages"
    (Document.asListOf (Package.ofDocument? exact)) []
  let gitName ← Document.optional fields "gitName" Document.asNonEmpty none
  let gitEmail ← Document.optional fields "gitEmail" Document.asNonEmpty none
  let hashedPassword ← Document.optional fields "hashedPassword" Document.asNonEmpty none
  return { username, description, shell, extraGroups, packages, gitName, gitEmail, hashedPassword }

/-- The document of the system settings. -/
def System.document (system : System) : Document :=
  -- Some of the fields have longer names in the document.
  .table [
    ("hostname", .text system.hostname),
    ("timezone", .text system.timezone),
    ("locale", .text system.locale),
    ("keyboardLayout", .text system.keyboardLayout),
    ("experimentalFeatures", .ofTexts system.experimentalFeatures),
    ("bootloader", .text system.bootloader.name),
    ("swapSize", .integer system.swapSize.toNat),
    ("hardwareProfile", .ofNullable system.hardwarePreset),
    ("hardwareConfigContent", .ofNullable system.hardwareConfig),
    ("systemPackages", .list (system.packages.map Package.document)),
    ("services", .list (system.services.map Service.document))]

/-- The system settings that a document holds. -/
def System.ofDocument? (exact : Bool) (document : Document) : Option System := do
  let fields ← document.asRecord exact
    ["hostname", "timezone", "locale", "keyboardLayout", "experimentalFeatures", "bootloader",
      "swapSize", "hardwareProfile", "hardwareConfigContent", "systemPackages", "services"]
  let hostname ← Document.required fields "hostname" Document.asText
  let timezone ← Document.required fields "timezone" Document.asText
  let locale ← Document.required fields "locale" Document.asText
  let keyboardLayout ← Document.required fields "keyboardLayout" Document.asText
  let experimentalFeatures ← Document.optional fields "experimentalFeatures"
    (Document.asListOf Document.asText) []
  let bootloader ← Document.optional fields "bootloader" (Document.asName exact Bootloader.ofName?)
    .systemdBoot
  let swapSize ← Document.optional fields "swapSize" (Document.asNatBelow UInt32.size) 0
  let hardwarePreset ← Document.optional fields "hardwareProfile" Document.asNonEmpty none
  let hardwareConfig ← Document.optional fields "hardwareConfigContent" Document.asNonEmpty none
  let packages ← Document.optional fields "systemPackages"
    (Document.asListOf (Package.ofDocument? exact)) []
  let services ← Document.optional fields "services"
    (Document.asListOf (Service.ofDocument? exact)) []
  return {
    hostname, timezone, locale, keyboardLayout, experimentalFeatures, bootloader
    -- The bound of the field keeps the number from wrapping around.
    swapSize := UInt32.ofNat swapSize
    hardwarePreset, hardwareConfig, packages, services }

/-- The document of a model. -/
def Model.document (model : Model) : Document :=
  -- The settings of the system form a table of their own.
  .table [
    ("nixVersion", .text model.nixVersion),
    ("flakeInputs", .list (model.sources.map Source.document)),
    ("system", model.system.document),
    ("users", .list (model.users.map User.document))]

/-- The model that a document holds. -/
def Model.ofDocument? (exact : Bool) (document : Document) : Option Model := do
  -- Only the sources may be missing.
  let fields ← document.asRecord exact ["nixVersion", "flakeInputs", "system", "users"]
  let nixVersion ← Document.required fields "nixVersion" Document.asText
  let sources ← Document.optional fields "flakeInputs"
    (Document.asListOf (Source.ofDocument? exact)) []
  let system ← Document.required fields "system" (System.ofDocument? exact)
  let users ← Document.required fields "users" (Document.asListOf (User.ofDocument? exact))
  return { nixVersion, sources, system, users }

/-- The document of a table of renames. -/
def Renames.document (renames : Renames) : Document :=
  -- Each of the three tables maps former names to current ones.
  .table [
    ("packages", .ofTable .text renames.packages),
    ("services", .ofTable .text renames.services),
    ("options", .ofTable .text renames.options)]

/-- The table of renames that a document holds; every part of it may be missing. -/
def Renames.ofDocument? (exact : Bool) (document : Document) : Option Renames := do
  -- A table that is missing is empty.
  let fields ← document.asRecord exact ["packages", "services", "options"]
  let packages ← Document.optional fields "packages" (Document.asTableOf Document.asText) .empty
  let services ← Document.optional fields "services" (Document.asTableOf Document.asText) .empty
  let options ← Document.optional fields "options" (Document.asTableOf Document.asText) .empty
  return { packages, services, options }

end NixKeeper
