import NixKeeper.Model.Basic
import NixKeeper.Text.Capital

/-!
Edits of a model, and the rules that every model keeps.

Items are known by their names: adding one that is there changes nothing, and a removal takes every
item of that name. An edit that would break a rule is refused with its cause.
-/

namespace NixKeeper

/-- Why a model or an edit is refused. -/
inductive ModelError where
  | duplicateSource (name : String)
  | reservedSource (name : String)
  | userNotFound (username : String)
  | duplicateUser (username : String)
  | reservedOption (service key : String)
  | serviceNotFound (name : String)
  | noUsers
  | emptyUsername
deriving DecidableEq

/-- The sentence that tells a reader what is wrong. -/
def ModelError.message : ModelError → String
  -- Names from the model stand between quotes.
  | .duplicateSource name => s!"Source '{name}' is already declared"
  | .reservedSource name => s!"Source '{name}' is reserved"
  | .userNotFound username => s!"User '{username}' not found"
  | .duplicateUser username => s!"User '{username}' already exists"
  | .reservedOption service key =>
    s!"Option '{key}' of service '{service}' is controlled by the service toggle"
  | .serviceNotFound name => s!"Service '{name}' not found"
  | .noUsers => "At least one user is required"
  | .emptyUsername => "Username must not be empty"

/-- The inputs that every manifest declares itself. -/
def reservedSources : List String :=
  ["nixpkgs", "home-manager", "nixos-hardware"]

/-- The option that switches a service, which is never set as an option of its own. -/
def enableOption : String :=
  "enable"

/-- The description of a user who has not been described yet. -/
def placeholderDescription : String :=
  "Primary User"

/-- Changes the first item that a test accepts. -/
def modifyFirst {α : Type} (accepts : α → Bool) (change : α → α) : List α → List α
  | [] => []
  | item :: rest =>
    -- Only the first item changes, so the others keep their places and contents.
    if accepts item then change item :: rest else item :: modifyFirst accepts change rest

/-- Adds a package at the end unless one of its name is there; tells whether it was added. -/
def addPackage (packages : List Package) (package : Package) : Bool × List Package :=
  -- The description does not matter for whether a package is there.
  if packages.any (·.name == package.name) then (false, packages)
  else (true, packages ++ [package])

/-- Removes the packages of a name; tells whether there were any. -/
def removePackage (packages : List Package) (name : String) : Bool × List Package :=
  (packages.any (·.name == name), packages.filter (·.name != name))

namespace Model

/-- Refuses options that belong to the switch of a service. -/
def checkOptions (service : String) (keys : List String) : Except ModelError Unit :=
  if keys.contains enableOption then .error (.reservedOption service enableOption) else .ok ()

/-- Refuses the first source whose name stands before it already. -/
def checkSources (before : List String) : List Source → Except ModelError Unit
  | [] => .ok ()
  | source :: rest =>
    -- Of two sources of a name the second one is at fault.
    if before.contains source.name then .error (.duplicateSource source.name)
    else checkSources (source.name :: before) rest

/-- Checks the rules of a model and answers with the first that is broken. -/
def validate (model : Model) : Except ModelError Unit := do
  -- The rules are checked in a fixed order, and the first broken one is told.
  if model.users.isEmpty then throw .noUsers
  if model.users.any (·.username == "") then throw .emptyUsername
  model.system.services.forM fun service => checkOptions service.name service.options.keys
  checkSources [] model.sources

/-- The first user of a name. -/
def user? (model : Model) (username : String) : Option User :=
  model.users.find? (·.username == username)

/-- The first service of a name. -/
def service? (model : Model) (name : String) : Option Service :=
  model.system.services.find? (·.name == name)

/-- The first user of a name, who has to be there. -/
def requireUser (model : Model) (username : String) : Except ModelError User :=
  -- What is missing is named in the error.
  match model.user? username with
  | some user => .ok user
  | none => .error (.userNotFound username)

/-- The first service of a name, which has to be there. -/
def requireService (model : Model) (name : String) : Except ModelError Service :=
  -- What is missing is named in the error.
  match model.service? name with
  | some service => .ok service
  | none => .error (.serviceNotFound name)

/-- The model with other system packages. -/
def withPackages (model : Model) (packages : List Package) : Model :=
  { model with system := { model.system with packages } }

/-- The model with other services. -/
def withServices (model : Model) (services : List Service) : Model :=
  { model with system := { model.system with services } }

/-- The model with its first user of a name changed. -/
def modifyUser (model : Model) (username : String) (change : User → User) : Model :=
  { model with users := modifyFirst (·.username == username) change model.users }

/-- The model with its first service of a name changed. -/
def modifyService (model : Model) (name : String) (change : Service → Service) : Model :=
  model.withServices (modifyFirst (·.name == name) change model.system.services)

end Model

/-- A single change of a model. -/
inductive Edit where
  | addSystemPackage (package : Package)
  | removeSystemPackage (name : String)
  | addUserPackage (username : String) (package : Package)
  | removeUserPackage (username : String) (name : String)
  /-- Switches a service over, or adds it switched on. -/
  | toggleService (service : Service)
  /-- Puts a service in the place of the one that has its name. -/
  | updateService (service : Service)
  | setServiceOption (name key : String) (value : Literal)
  | removeServiceOption (name key : String)
  | addSource (source : Source)
  | removeSource (name : String)
  | addUser (user : User)
  /-- Removes a user other than the last one. -/
  | removeUser (username : String)
  /-- Renames a user, who is described anew if nobody has done so. -/
  | renameUser (oldName newName : String)
  | setExperimentalFeatures (features : List String)

/-- A changed model, and whether the edit found something to do, if it tells. -/
structure Edited where
  model : Model
  answer : Option Bool

namespace Edit

/-- Adds a package for all users. -/
def systemPackageAdded (model : Model) (package : Package) : Edited :=
  -- The answer is whether the package was new.
  let (added, packages) := addPackage model.system.packages package
  ⟨model.withPackages packages, some added⟩

/-- Removes a package for all users. -/
def systemPackageRemoved (model : Model) (name : String) : Edited :=
  -- The answer is whether the package was there.
  let (removed, packages) := removePackage model.system.packages name
  ⟨model.withPackages packages, some removed⟩

/-- Adds a package for one user. -/
def userPackageAdded (model : Model) (username : String) (package : Package) :
    Except ModelError Edited := do
  -- The first user of the name is changed, and the answer is whether the package was new.
  let user ← model.requireUser username
  let (added, packages) := addPackage user.packages package
  return ⟨model.modifyUser username fun user => { user with packages }, some added⟩

/-- Removes a package of one user. -/
def userPackageRemoved (model : Model) (username name : String) : Except ModelError Edited := do
  -- The first user of the name is changed, and the answer is whether the package was there.
  let user ← model.requireUser username
  let (removed, packages) := removePackage user.packages name
  return ⟨model.modifyUser username fun user => { user with packages }, some removed⟩

/-- Switches a service over, or adds it switched on; the answer tells whether it is on now. -/
def serviceToggled (model : Model) (service : Service) : Edited :=
  match model.service? service.name with
  | some present =>
    -- The options and the description of a service that is there stay as they are.
    let enabled := !present.enabled
    ⟨model.modifyService service.name fun present => { present with enabled }, some enabled⟩
  | none =>
    ⟨model.withServices (model.system.services ++ [{ service with enabled := true }]), some true⟩

/-- Puts a service in the place of the one that has its name. -/
def serviceUpdated (model : Model) (service : Service) : Except ModelError Edited := do
  -- The options are checked before the service is looked for.
  Model.checkOptions service.name service.options.keys
  let _ ← model.requireService service.name
  return ⟨model.modifyService service.name fun _ => service, none⟩

/-- Sets an option of a service. -/
def optionSet (model : Model) (name key : String) (value : Literal) :
    Except ModelError Edited := do
  -- The switch is refused even where there is no such service.
  Model.checkOptions name [key]
  let _ ← model.requireService name
  let changed := model.modifyService name fun service =>
    { service with options := service.options.insert key value }
  return ⟨changed, none⟩

/-- Takes an option of a service back; the answer tells whether it was set. -/
def optionRemoved (model : Model) (name key : String) : Except ModelError Edited := do
  let service ← model.requireService name
  let changed := model.modifyService name fun service =>
    { service with options := service.options.erase key }
  -- The answer is read from the service as it was.
  return ⟨changed, some (service.options.get? key).isSome⟩

/-- Declares a source under a name that is free. -/
def sourceAdded (model : Model) (source : Source) : Except ModelError Edited :=
  -- A reserved name is told before a taken one.
  if reservedSources.contains source.name then .error (.reservedSource source.name)
  else if model.sources.any (·.name == source.name) then .error (.duplicateSource source.name)
  else .ok ⟨{ model with sources := model.sources ++ [source] }, none⟩

/-- Removes the sources of a name. -/
def sourceRemoved (model : Model) (name : String) : Edited :=
  -- A source that is not there is no error.
  ⟨{ model with sources := model.sources.filter (·.name != name) },
    some (model.sources.any (·.name == name))⟩

/-- Adds a user unless the username is taken. -/
def userAdded (model : Model) (user : User) : Except ModelError Edited :=
  -- A name that is taken is no error, and nothing is added.
  if user.username = "" then .error .emptyUsername
  else if model.users.any (·.username == user.username) then .ok ⟨model, some false⟩
  else .ok ⟨{ model with users := model.users ++ [user] }, some true⟩

/-- Removes the users of a name, unless there is only one user. -/
def userRemoved (model : Model) (username : String) : Except ModelError Edited :=
  if !model.users.any (·.username == username) then .error (.userNotFound username)
  -- The last user stays, since every model has one.
  else if model.users.length = 1 then .error .noUsers
  else .ok ⟨{ model with users := model.users.filter (·.username != username) }, none⟩

/-- The user under another name; the capitalised name describes one whom nobody has described. -/
def renamed (newName : String) (user : User) : User :=
  -- A description that somebody has written is kept.
  if user.description = "" ∨ user.description = placeholderDescription then
    { user with
      username := newName
      description := String.ofList (Text.capitalize newName.toList) }
  else { user with username := newName }

/-- Gives a user another name, which may not be taken. -/
def userRenamed (model : Model) (oldName newName : String) : Except ModelError Edited := do
  if newName = "" then throw .emptyUsername
  -- A user may be given the name that is there already.
  if oldName ≠ newName ∧ model.users.any (·.username == newName) then
    throw (.duplicateUser newName)
  let _ ← model.requireUser oldName
  return ⟨model.modifyUser oldName (renamed newName), none⟩

/-- The texts without the empty ones and without repetitions. -/
def distinctFeatures (features : List String) : List String :=
  features.foldl (fun kept feature =>
    -- The first mention of a feature gives it its place.
    if feature = "" ∨ kept.contains feature then kept else kept ++ [feature]) []

/-- Replaces the experimental features. -/
def featuresSet (model : Model) (features : List String) : Edited :=
  -- There is no answer to be given.
  ⟨{ model with system :=
      { model.system with experimentalFeatures := distinctFeatures features } }, none⟩

/-- Carries an edit out. -/
def apply (model : Model) : Edit → Except ModelError Edited
  -- Edits that cannot fail are wrapped here.
  | addSystemPackage package => .ok (systemPackageAdded model package)
  | removeSystemPackage name => .ok (systemPackageRemoved model name)
  | addUserPackage username package => userPackageAdded model username package
  | removeUserPackage username name => userPackageRemoved model username name
  | toggleService service => .ok (serviceToggled model service)
  | updateService service => serviceUpdated model service
  | setServiceOption name key value => optionSet model name key value
  | removeServiceOption name key => optionRemoved model name key
  | addSource source => sourceAdded model source
  | removeSource name => .ok (sourceRemoved model name)
  | addUser user => userAdded model user
  | removeUser username => userRemoved model username
  | renameUser oldName newName => userRenamed model oldName newName
  | setExperimentalFeatures features => .ok (featuresSet model features)

/-- The model after an edit, which is the old one if the edit is refused. -/
def after (model : Model) (edit : Edit) : Model :=
  match apply model edit with
  | .ok edited => edited.model
  -- A refused edit leaves no trace.
  | .error _ => model

end Edit

end NixKeeper
