import NixKeeper.Model.Edit

/-!
Edits carried out on a model where it stands.

What an edit looks for is found first and changed at its place afterwards, as often as there is something to
change. A failure takes nothing back: the model stays as the statements before the failure have left it.
-/

namespace NixKeeper

/-- Statements that change a model one after another, and that may fail on the way. -/
abbrev InPlace : Type → Type :=
  EStateM ModelError Model

namespace InPlace

/-- The first user of a name, who has to be there, and the place of that user. -/
def findUser (username : String) : InPlace (Nat × User) := do
  -- The error is raised before any change.
  let model ← get
  match model.user? username with
  | some user => return (model.users.findIdx (·.username == username), user)
  | none => throw (.userNotFound username)

/-- The first service of a name, which has to be there, and the place of that service. -/
def findService (name : String) : InPlace (Nat × Service) := do
  -- The error is raised before any change.
  let model ← get
  match model.service? name with
  | some service => return (model.system.services.findIdx (·.name == name), service)
  | none => throw (.serviceNotFound name)

/-- Changes the user at a place. -/
def changeUser (place : Nat) (change : User → User) : InPlace Unit :=
  modify fun model => { model with users := model.users.modify place change }

/-- Changes the service at a place. -/
def changeService (place : Nat) (change : Service → Service) : InPlace Unit :=
  modify fun model => model.withServices (model.system.services.modify place change)

/-- Works on the packages for all users, and tells whether there was something to do. -/
def changeSystemPackages (change : List Package → Bool × List Package) :
    InPlace (Option Bool) := do
  -- Nothing has to be found first, so there is no error.
  let (found, packages) := change (← get).system.packages
  modify (·.withPackages packages)
  return some found

/-- Works on the packages of one user, and tells whether there was something to do. -/
def changeUserPackages (username : String) (change : List Package → Bool × List Package) :
    InPlace (Option Bool) := do
  -- The user is looked for before anything is changed.
  let (place, user) ← findUser username
  let (found, packages) := change user.packages
  changeUser place fun user => { user with packages }
  return some found

/-- Switches a service over, or adds it switched on. -/
def toggleService (service : Service) : InPlace (Option Bool) := do
  let model ← get
  match model.service? service.name with
  | some present =>
    let enabled := !present.enabled
    changeService (model.system.services.findIdx (·.name == service.name)) fun present =>
      { present with enabled }
    return some enabled
  -- A service that is new goes to the end, and is switched on.
  | none =>
    set (model.withServices (model.system.services ++ [{ service with enabled := true }]))
    return some true

/-- Puts a service in the place of the one that has its name. -/
def updateService (service : Service) : InPlace (Option Bool) := do
  -- The check comes before the search, so its error counts first.
  MonadExcept.ofExcept (Model.checkOptions service.name service.options.keys)
  let (place, _) ← findService service.name
  changeService place fun _ => service
  return none

/-- Sets an option of a service. -/
def setServiceOption (name key : String) (value : Literal) : InPlace (Option Bool) := do
  -- The check comes before the search, so its error counts first.
  MonadExcept.ofExcept (Model.checkOptions name [key])
  let (place, _) ← findService name
  changeService place fun service => { service with options := service.options.insert key value }
  return none

/-- Takes an option of a service back, and tells whether it was set. -/
def removeServiceOption (name key : String) : InPlace (Option Bool) := do
  let (place, service) ← findService name
  changeService place fun service => { service with options := service.options.erase key }
  -- The answer is read from the service as it was found.
  return some (service.options.get? key).isSome

/-- Declares a source under a name that is free. -/
def addSource (source : Source) : InPlace (Option Bool) := do
  -- Both checks come before anything is changed.
  if reservedSources.contains source.name then throw (.reservedSource source.name)
  if (← get).sources.any (·.name == source.name) then throw (.duplicateSource source.name)
  modify fun model => { model with sources := model.sources ++ [source] }
  return none

/-- Removes the sources of a name, and tells whether there were any. -/
def removeSource (name : String) : InPlace (Option Bool) := do
  let before := (← get).sources
  -- The answer is read from the sources as they were.
  modify fun model => { model with sources := model.sources.filter (·.name != name) }
  return some (before.any (·.name == name))

/-- Adds a user unless the username is taken, and tells which. -/
def addUser (user : User) : InPlace (Option Bool) := do
  -- Both checks come before anything is changed.
  if user.username = "" then throw .emptyUsername
  if (← get).users.any (·.username == user.username) then return some false
  modify fun model => { model with users := model.users ++ [user] }
  return some true

/-- Removes the users of a name, unless there is only one user. -/
def removeUser (username : String) : InPlace (Option Bool) := do
  -- Both checks come before anything is changed.
  if !(← get).users.any (·.username == username) then throw (.userNotFound username)
  if (← get).users.length = 1 then throw .noUsers
  modify fun model => { model with users := model.users.filter (·.username != username) }
  return none

/-- Gives a user another name, which may not be taken. -/
def renameUser (oldName newName : String) : InPlace (Option Bool) := do
  if newName = "" then throw .emptyUsername
  if oldName ≠ newName ∧ (← get).users.any (·.username == newName) then
    throw (.duplicateUser newName)
  let (place, user) ← findUser oldName
  -- The description is changed first, and the name after it.
  if user.description = "" ∨ user.description = placeholderDescription then
    changeUser place fun user =>
      { user with description := String.ofList (Text.capitalize newName.toList) }
  changeUser place fun user => { user with username := newName }
  return none

/-- Replaces the experimental features. -/
def setExperimentalFeatures (features : List String) : InPlace (Option Bool) := do
  -- There is no answer to be given.
  modify fun model => { model with system :=
    { model.system with experimentalFeatures := Edit.distinctFeatures features } }
  return none

end InPlace

namespace Edit

/-- Carries an edit out on the model where it stands. -/
def perform : Edit → InPlace (Option Bool)
  -- The package edits share their steps, and differ in what they do to the list.
  | addSystemPackage package => InPlace.changeSystemPackages (addPackage · package)
  | removeSystemPackage name => InPlace.changeSystemPackages (removePackage · name)
  | addUserPackage username package => InPlace.changeUserPackages username (addPackage · package)
  | removeUserPackage username name => InPlace.changeUserPackages username (removePackage · name)
  | toggleService service => InPlace.toggleService service
  | updateService service => InPlace.updateService service
  | setServiceOption name key value => InPlace.setServiceOption name key value
  | removeServiceOption name key => InPlace.removeServiceOption name key
  | addSource source => InPlace.addSource source
  | removeSource name => InPlace.removeSource name
  | addUser user => InPlace.addUser user
  | removeUser username => InPlace.removeUser username
  | renameUser oldName newName => InPlace.renameUser oldName newName
  | setExperimentalFeatures features => InPlace.setExperimentalFeatures features

/-- The model that an edit leaves behind, whether it fails or not. -/
def leave (model : Model) (edit : Edit) : Model :=
  -- What an edit has changed before an error would stay.
  match edit.perform.run model with
  | .ok _ left => left
  | .error _ left => left

end Edit

end NixKeeper
