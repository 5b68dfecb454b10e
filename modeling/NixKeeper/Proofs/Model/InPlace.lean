import NixKeeper.Model.InPlace

/-!
Edits that are carried out where the model stands do what the edits say.

An edit that fails has changed nothing by then, so what it leaves behind is the model it was given.
-/

namespace NixKeeper

/-- The first accepted item is changed at its place. -/
theorem modify_findIdx {α : Type} (accepts : α → Bool) (change : α → α) (items : List α) :
    items.modify (items.findIdx accepts) change = modifyFirst accepts change items := by
  -- Both walk past the same items, one counting them and the other keeping them.
  induction items with
  | nil => rfl
  | cons item rest ih =>
    rw [List.findIdx_cons, modifyFirst]
    cases accepts item with
    | true => rfl
    | false => simp [ih]

/-- Changes of the first accepted item make the same of a list if they make the same of that item. -/
theorem modifyFirst_eq_modifyFirst_iff {α : Type} {accepts : α → Bool} {change other : α → α}
    {items : List α} : modifyFirst accepts change items = modifyFirst accepts other items ↔
      ∀ item, items.find? accepts = some item → change item = other item := by
  induction items with
  | nil => simp [modifyFirst]
  | cons item rest ih =>
    rw [modifyFirst, modifyFirst, List.find?_cons]
    -- The first accepted item is this one, or it is found in the rest.
    cases accepts item with
    | true => simp
    | false => simpa using ih

/-- A change that leaves the first accepted item as it is leaves the list as it is. -/
theorem modifyFirst_id {α : Type} (accepts : α → Bool) (items : List α) :
    modifyFirst accepts id items = items := by
  -- The item found is put back as it was.
  rw [← modify_findIdx, List.modify_id]

namespace Model

variable {model : Model}

/-- Changes of a user make the same of a model if they make the same of that user. -/
theorem modifyUser_eq_modifyUser_iff {username : String} {change other : User → User} :
    model.modifyUser username change = model.modifyUser username other ↔
      ∀ user, model.user? username = some user → change user = other user := by
  -- Only the user that is found is changed.
  simp only [modifyUser, mk.injEq, true_and, modifyFirst_eq_modifyFirst_iff, user?]

/-- A change of a user leaves a model as it is if it leaves that user so. -/
theorem modifyUser_eq_self_iff {username : String} {change : User → User} :
    model.modifyUser username change = model ↔
      ∀ user, model.user? username = some user → change user = user := by
  -- The change is compared with the one that does nothing.
  have unchanged : model.modifyUser username id = model := by
    rw [modifyUser, modifyFirst_id]
  have compared := @modifyUser_eq_modifyUser_iff model username change id
  rw [unchanged] at compared
  exact compared

/-- A change of a service leaves a model as it is if it leaves that service so. -/
theorem modifyService_eq_self_iff {name : String} {change : Service → Service} :
    model.modifyService name change = model ↔
      ∀ service, model.service? name = some service → change service = service := by
  -- Leaving a service alone is the change that is compared with.
  have unchanged : modifyFirst (·.name == name) id model.system.services = model.system.services :=
    modifyFirst_id _ _
  constructor
  · intro same
    have services := congrArg (·.system.services) same
    exact modifyFirst_eq_modifyFirst_iff.1 (services.trans unchanged.symm)
  · intro same
    have services := modifyFirst_eq_modifyFirst_iff.2 same
    rw [modifyService, services.trans unchanged]
    rfl

/-- A user who has to be there is there. -/
theorem requireUser_eq_ok_iff {username : String} {user : User} :
    model.requireUser username = .ok user ↔ model.user? username = some user := by
  -- The user is there or the error is raised.
  rw [requireUser]
  cases model.user? username <;> simp

/-- A service that has to be there is there. -/
theorem requireService_eq_ok_iff {name : String} {service : Service} :
    model.requireService name = .ok service ↔ model.service? name = some service := by
  -- The service is there or the error is raised.
  rw [requireService]
  cases model.service? name <;> simp

end Model

namespace InPlace

variable {model : Model}

/-- The model is looked at first, which changes nothing. -/
theorem run_get_bind {α : Type} (next : Model → InPlace α) :
    (get >>= next).run model = (next model).run model :=
  -- Reading the state hands it on.
  rfl

/-- How an edit ends that changes nothing unless it succeeds. -/
def settled (model : Model) : Except ModelError Edited → EStateM.Result ModelError Model (Option Bool)
  -- An error leaves the model as it was.
  | .ok edited => .ok edited.answer edited.model
  | .error error => .error error model

/-- A check comes first, which changes nothing. -/
theorem run_ofExcept_bind {check : Except ModelError Unit} {next : Unit → InPlace (Option Bool)}
    {edited : Unit → Except ModelError Edited}
    (later : (next ()).run model = settled model (edited ())) :
    ((MonadExcept.ofExcept check : InPlace Unit) >>= next).run model =
      settled model (check >>= edited) := by
  -- A check that fails ends the edit before anything is changed.
  cases check with
  | error error => rfl
  | ok => exact later

/-- A user is looked for first, which changes nothing. -/
theorem run_findUser_bind {username : String} {next : Nat × User → InPlace (Option Bool)}
    {edited : User → Except ModelError Edited}
    (later : ∀ user, model.user? username = some user →
      (next (model.users.findIdx (·.username == username), user)).run model =
        settled model (edited user)) :
    (findUser username >>= next).run model =
      settled model (model.requireUser username >>= edited) := by
  -- A user that is not found ends the edit before anything is changed.
  rw [EStateM.run_bind, findUser, run_get_bind, Model.requireUser]
  cases found : model.user? username with
  | none => rfl
  | some user => exact later user found

/-- A service is looked for first, which changes nothing. -/
theorem run_findService_bind {name : String} {next : Nat × Service → InPlace (Option Bool)}
    {edited : Service → Except ModelError Edited}
    (later : ∀ service, model.service? name = some service →
      (next (model.system.services.findIdx (·.name == name), service)).run model =
        settled model (edited service)) :
    (findService name >>= next).run model =
      settled model (model.requireService name >>= edited) := by
  -- A service that is not found ends the edit before anything is changed.
  rw [EStateM.run_bind, findService, run_get_bind, Model.requireService]
  cases found : model.service? name with
  | none => rfl
  | some service => exact later service found

/-- A user is changed at the place where one of a name was found. -/
theorem run_changeUser (username : String) (change : User → User) :
    (changeUser (model.users.findIdx (·.username == username)) change).run model =
      .ok () (model.modifyUser username change) := by
  -- Changing at the place of the first match is changing the first match.
  rw [Model.modifyUser, ← modify_findIdx]
  rfl

/-- Of two changes at a place the second one is made to what the first one has made. -/
theorem run_changeUser_bind_changeUser {α : Type} (place : Nat) (first second : User → User)
    (next : InPlace α) :
    (changeUser place first >>= fun _ => changeUser place second >>= fun _ => next).run model =
      (changeUser place (second ∘ first) >>= fun _ => next).run model := by
  -- Two changes in one place are one change after the other.
  have twice : (model.users.modify place first).modify place second =
      model.users.modify place (second ∘ first) := List.modify_modify_eq first second place model.users
  simp only [changeUser, EStateM.run_bind, EStateM.run_modify, twice]

/-- A service is changed at the place where one of a name was found. -/
theorem run_changeService (name : String) (change : Service → Service) :
    (changeService (model.system.services.findIdx (·.name == name)) change).run model =
      .ok () (model.modifyService name change) := by
  -- Changing at the place of the first match is changing the first match.
  rw [Model.modifyService, ← modify_findIdx]
  rfl

/-- The packages of a user are changed as the edit says. -/
theorem run_changeUserPackages (username : String) (change : List Package → Bool × List Package) :
    (changeUserPackages username change).run model =
      settled model (model.requireUser username >>= fun user =>
        .ok ⟨model.modifyUser username fun other => { other with packages := (change user.packages).2 },
          some (change user.packages).1⟩) := by
  -- The user is found, and both the answer and the new list come from its packages.
  refine run_findUser_bind fun user _ => ?_
  rw [EStateM.run_bind, run_changeUser]
  rfl

/-- A service is switched over or added as the edit says. -/
theorem run_toggleService (service : Service) :
    (toggleService service).run model = settled model (.ok (Edit.serviceToggled model service)) := by
  rw [toggleService, run_get_bind, Edit.serviceToggled]
  -- The service is looked up in both, and the answer tells what is done.
  cases model.service? service.name with
  | none => rfl
  | some present =>
    rw [EStateM.run_bind, run_changeService]
    rfl

/-- A service is replaced as the edit says. -/
theorem run_updateService (service : Service) :
    (updateService service).run model = settled model (Edit.serviceUpdated model service) := by
  -- The check comes first, then the search, then the change.
  refine run_ofExcept_bind (run_findService_bind fun present _ => ?_)
  rw [EStateM.run_bind, run_changeService]
  rfl

/-- An option is set as the edit says. -/
theorem run_setServiceOption (name key : String) (value : Literal) :
    (setServiceOption name key value).run model =
      settled model (Edit.optionSet model name key value) := by
  -- The check comes first, then the search, then the change.
  refine run_ofExcept_bind (run_findService_bind fun service _ => ?_)
  rw [EStateM.run_bind, run_changeService]
  rfl

/-- An option is taken back as the edit says. -/
theorem run_removeServiceOption (name key : String) :
    (removeServiceOption name key).run model =
      settled model (Edit.optionRemoved model name key) := by
  -- The service is found, and the option is taken from it.
  refine run_findService_bind fun service _ => ?_
  rw [EStateM.run_bind, run_changeService]
  rfl

/-- A source is declared as the edit says. -/
theorem run_addSource (source : Source) :
    (addSource source).run model = settled model (Edit.sourceAdded model source) := by
  rw [addSource, Edit.sourceAdded]
  -- The same two checks come first, in the same order.
  split
  · rfl
  · rw [run_get_bind]
    split <;> rfl

/-- A user is added as the edit says. -/
theorem run_addUser (user : User) :
    (addUser user).run model = settled model (Edit.userAdded model user) := by
  rw [addUser, Edit.userAdded]
  -- The same two checks come first, in the same order.
  split
  · rfl
  · rw [run_get_bind]
    split <;> rfl

/-- A user is removed as the edit says. -/
theorem run_removeUser (username : String) :
    (removeUser username).run model = settled model (Edit.userRemoved model username) := by
  rw [removeUser, Edit.userRemoved, run_get_bind]
  dsimp only
  -- The same two checks come first, in the same order.
  split
  · rfl
  · rw [run_get_bind]
    split <;> rfl

/-- A user is renamed as the edit says, although in two steps. -/
theorem run_renameUser (oldName newName : String) :
    (renameUser oldName newName).run model =
      settled model (Edit.userRenamed model oldName newName) := by
  rw [renameUser, Edit.userRenamed]
  split
  · rfl
  · rw [run_get_bind]
    dsimp only
    split
    · rfl
    · refine run_findUser_bind fun user found => ?_
      -- Whether the user has been described is seen at the user who was found.
      have renamed {change : User → User} (same : change user = Edit.renamed newName user) :
          model.modifyUser oldName change = model.modifyUser oldName (Edit.renamed newName) :=
        Model.modifyUser_eq_modifyUser_iff.2 fun other known => by
          rw [Option.some.inj (known.symm.trans found), same]
      dsimp only
      split
      · rename_i undescribed
        rw [run_changeUser_bind_changeUser, EStateM.run_bind, run_changeUser,
          renamed (by simp [Edit.renamed, undescribed])]
        rfl
      · rename_i described
        rw [EStateM.run_bind, run_changeUser, renamed (by simp [Edit.renamed, described])]
        rfl

end InPlace

namespace Edit

/-- An edit that is carried out where the model stands changes it as the edit says, or not at all. -/
theorem run_perform (model : Model) (edit : Edit) :
    edit.perform.run model = InPlace.settled model (apply model edit) := by
  -- Where nothing is looked for, both are the same statement.
  cases edit with
  | addSystemPackage package | removeSystemPackage name => rfl
  | addUserPackage username package =>
    exact InPlace.run_changeUserPackages username (addPackage · package)
  | removeUserPackage username name =>
    exact InPlace.run_changeUserPackages username (removePackage · name)
  | toggleService service => exact InPlace.run_toggleService service
  | updateService service => exact InPlace.run_updateService service
  | setServiceOption name key value => exact InPlace.run_setServiceOption name key value
  | removeServiceOption name key => exact InPlace.run_removeServiceOption name key
  | addSource source => exact InPlace.run_addSource source
  | removeSource name => rfl
  | addUser user => exact InPlace.run_addUser user
  | removeUser username => exact InPlace.run_removeUser username
  | renameUser oldName newName => exact InPlace.run_renameUser oldName newName
  | setExperimentalFeatures features => rfl

/-- What an edit leaves behind is the model after the edit. -/
theorem leave_eq_after (model : Model) (edit : Edit) : leave model edit = after model edit := by
  rw [leave, after, run_perform]
  -- Running the edit is applying it, and an error leaves the model in both.
  cases apply model edit <;> rfl

end Edit

end NixKeeper
