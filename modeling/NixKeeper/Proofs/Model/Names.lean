import Mathlib.Data.List.Induction
import NixKeeper.Proofs.Model.InPlace
import NixKeeper.Proofs.Model.Rules

/-!
Names stay different from each other in every list of a model, and an edit that does nothing says so.

An item is only added under a new name, and an item that is changed keeps its name or gets a new one.
-/

namespace NixKeeper

section Keys

variable {α : Type} {key : α → String} {items : List α}

/-- An item with a new key may be added at the end. -/
theorem nodup_map_concat {item : α} (distinct : (items.map key).Nodup)
    (new : key item ∉ items.map key) : ((items ++ [item]).map key).Nodup := by
  rw [List.map_append, List.map_singleton, List.nodup_append]
  refine ⟨distinct, List.pairwise_singleton _ _, fun name among added single => ?_⟩
  -- The added name is the only one of its part, so it only has to be new.
  rw [List.mem_singleton.1 single]
  exact ne_of_mem_of_not_mem among new

/-- Some items may be left out. -/
theorem nodup_map_filter (distinct : (items.map key).Nodup) (keeps : α → Bool) :
    ((items.filter keeps).map key).Nodup :=
  -- Filtering keeps some of the names, in their order.
  distinct.sublist (List.filter_sublist.map key)

/-- An item after a change was there before or comes from the accepted one. -/
theorem mem_or_exists_of_mem_modifyFirst {accepts : α → Bool} {change : α → α} {other : α}
    (within : other ∈ modifyFirst accepts change items) :
    other ∈ items ∨ ∃ item ∈ items, accepts item = true ∧ change item = other := by
  -- Only the first accepted item changes, and the items behind it stay.
  induction items with
  | nil => exact .inl within
  | cons item rest ih =>
    rw [modifyFirst] at within
    split at within
    · rename_i accepted
      rcases List.mem_cons.1 within with rfl | behind
      · exact .inr ⟨item, List.mem_cons_self, accepted, rfl⟩
      · exact .inl (List.mem_cons_of_mem _ behind)
    · rcases List.mem_cons.1 within with rfl | behind
      · exact .inl List.mem_cons_self
      · refine (ih behind).imp (List.mem_cons_of_mem _) ?_
        rintro ⟨source, among, origin⟩
        exact ⟨source, List.mem_cons_of_mem _ among, origin⟩

/-- The first accepted item may be changed if it keeps its key or gets a new one. -/
theorem nodup_map_modifyFirst {accepts : α → Bool} {change : α → α}
    (distinct : (items.map key).Nodup)
    (changed : ∀ item ∈ items, accepts item = true →
      key (change item) = key item ∨ key (change item) ∉ items.map key) :
    ((modifyFirst accepts change items).map key).Nodup := by
  induction items with
  | nil => exact distinct
  | cons item rest ih =>
    obtain ⟨apart, later⟩ := List.nodup_cons.1 distinct
    -- The keys of the rest differ from the old key, and a new one is among no keys at all.
    rw [modifyFirst]
    split
    · rename_i accepted
      refine List.nodup_cons.2 ⟨?_, later⟩
      rcases changed item List.mem_cons_self accepted with same | new
      · rw [same]
        exact apart
      · exact fun within => new (List.mem_cons_of_mem _ within)
    · refine List.nodup_cons.2 ⟨fun within => ?_, ih later fun other among accepted => ?_⟩
      · obtain ⟨other, among, equal⟩ := List.mem_map.1 within
        rcases mem_or_exists_of_mem_modifyFirst among with before | ⟨source, behind, accepted, rfl⟩
        · exact apart (equal ▸ List.mem_map_of_mem before)
        · rcases changed source (List.mem_cons_of_mem _ behind) accepted with same | new
          · exact apart (equal ▸ same ▸ List.mem_map_of_mem behind)
          · exact new (equal ▸ List.mem_cons_self)
      · exact (changed other (List.mem_cons_of_mem _ among) accepted).imp_right
          fun new behind => new (List.mem_cons_of_mem _ behind)

end Keys

section Packages

variable {packages : List Package}

/-- A package is added under a new name only. -/
theorem nodup_addPackage (distinct : (packages.map (·.name)).Nodup) (package : Package) :
    ((addPackage packages package).2.map (·.name)).Nodup := by
  rw [addPackage]
  split
  · exact distinct
  · -- A package is put behind only if its name is new.
    rename_i new
    exact nodup_map_concat distinct (by simpa using new)

/-- The names that are left after a removal are different. -/
theorem nodup_removePackage (distinct : (packages.map (·.name)).Nodup) (name : String) :
    ((removePackage packages name).2.map (·.name)).Nodup :=
  -- Removing a package is filtering.
  nodup_map_filter distinct _

/-- Adding a package tells whether the packages have changed. -/
theorem addPackage_eq_false_iff {package : Package} :
    (addPackage packages package).1 = false ↔ (addPackage packages package).2 = packages := by
  rw [addPackage]
  -- A known package is not added, and an added one makes the list longer.
  split <;> simp

/-- Removing a package tells whether the packages have changed. -/
theorem removePackage_eq_false_iff {name : String} :
    (removePackage packages name).1 = false ↔ (removePackage packages name).2 = packages := by
  -- Nothing is removed exactly when the filter keeps everything.
  simp [removePackage]

end Packages

namespace Model

/-- In every list of a model the names are different from each other. -/
structure NamesDistinct (model : Model) : Prop where
  packages : (model.system.packages.map (·.name)).Nodup
  services : (model.system.services.map (·.name)).Nodup
  sources : (model.sources.map (·.name)).Nodup
  users : (model.users.map (·.username)).Nodup
  userPackages : ∀ user ∈ model.users, (user.packages.map (·.name)).Nodup

variable {model : Model}

/-- Other packages for all users leave the model as it is only if they are the same. -/
theorem withPackages_eq_self_iff {packages : List Package} :
    model.withPackages packages = model ↔ packages = model.system.packages := by
  -- The packages can be read off from the model again.
  constructor
  · intro same
    exact congrArg (·.system.packages) same
  · rintro rfl
    rfl

/-- Other packages of a user leave the model as it is only if they are the same. -/
theorem modifyUser_packages_eq_self_iff {username : String} {user : User} {packages : List Package}
    (found : model.requireUser username = .ok user) :
    (model.modifyUser username fun other => { other with packages }) = model ↔
      packages = user.packages := by
  rw [modifyUser_eq_self_iff, requireUser_eq_ok_iff.1 found]
  constructor
  · intro same
    exact congrArg User.packages (same user rfl)
  -- The user that is found is the only one that could change.
  · rintro rfl other ⟨⟩
    rfl

/-- An option is taken back without a change of the model only if it was not set. -/
theorem modifyService_erase_eq_self_iff {name key : String} {service : Service}
    (found : model.requireService name = .ok service) :
    (model.modifyService name fun other => { other with options := other.options.erase key }) =
      model ↔ service.options.get? key = none := by
  rw [modifyService_eq_self_iff, requireService_eq_ok_iff.1 found, ← Table.erase_eq_self_iff]
  constructor
  · intro same
    exact congrArg Service.options (same service rfl)
  -- The service that is found is the only one that could change.
  · rintro same other ⟨⟩
    rw [same]

namespace NamesDistinct

variable {model : Model}

/-- Packages for all users whose names are different may take the place of others. -/
theorem withPackages (distinct : model.NamesDistinct) {packages : List Package}
    (different : (packages.map (·.name)).Nodup) : (model.withPackages packages).NamesDistinct :=
  -- Only the packages of the system are others.
  ⟨different, distinct.services, distinct.sources, distinct.users, distinct.userPackages⟩

/-- Services whose names are different may take the place of others. -/
theorem withServices (distinct : model.NamesDistinct) {services : List Service}
    (different : (services.map (·.name)).Nodup) : (model.withServices services).NamesDistinct :=
  -- Only the services are others.
  ⟨distinct.packages, different, distinct.sources, distinct.users, distinct.userPackages⟩

/-- Sources whose names are different may take the place of others. -/
theorem withSources (distinct : model.NamesDistinct) {sources : List Source}
    (different : (sources.map (·.name)).Nodup) : NamesDistinct { model with sources } :=
  -- Only the sources are others.
  ⟨distinct.packages, distinct.services, different, distinct.users, distinct.userPackages⟩

/-- Users whose names are different may take the place of others. -/
theorem withUsers (distinct : model.NamesDistinct) {users : List User}
    (different : (users.map (·.username)).Nodup)
    (packages : ∀ user ∈ users, (user.packages.map (·.name)).Nodup) :
    NamesDistinct { model with users } :=
  -- Only the users are others, and their packages with them.
  ⟨distinct.packages, distinct.services, distinct.sources, different, packages⟩

/-- A service may be changed that keeps its name. -/
theorem modifyService (distinct : model.NamesDistinct) {name : String} {change : Service → Service}
    (same : ∀ service, service.name = name → (change service).name = service.name) :
    (model.modifyService name change).NamesDistinct :=
  -- Only the service of that name is changed, and it keeps its name.
  distinct.withServices (nodup_map_modifyFirst distinct.services fun service _ accepted =>
    .inl (same service (beq_iff_eq.1 accepted)))

/-- A user may be given other packages. -/
theorem modifyUserPackages (distinct : model.NamesDistinct) (username : String)
    {packages : List Package} (different : (packages.map (·.name)).Nodup) :
    (model.modifyUser username fun user => { user with packages }).NamesDistinct :=
  -- The names of the users stay, and the packages of one of them are others.
  distinct.withUsers (nodup_map_modifyFirst distinct.users fun _ _ _ => .inl rfl)
    (forall_mem_modifyFirst distinct.userPackages fun _ _ => different)

/-- The packages of a user who is there have different names. -/
theorem packages_of_requireUser (distinct : model.NamesDistinct) {username : String} {user : User}
    (found : model.requireUser username = .ok user) : (user.packages.map (·.name)).Nodup :=
  -- A user that is found is one of the model's.
  distinct.userPackages user (List.mem_of_find?_eq_some (requireUser_eq_ok_iff.1 found))

end NamesDistinct

end Model

namespace Edit

open Model

variable {model : Model} {edited : Edited}

/-- An edit that brings in no two packages of one name at once. -/
def IsProper : Edit → Prop
  -- A user that is added brings packages of its own.
  | addUser user => (user.packages.map (·.name)).Nodup
  | _ => True

/-- A service that is switched over keeps its name, and an added one has a new name. -/
theorem namesDistinct_serviceToggled (distinct : model.NamesDistinct) (service : Service) :
    (serviceToggled model service).model.NamesDistinct := by
  rw [serviceToggled]
  -- A service that is known is switched in its place.
  cases found : model.service? service.name with
  | some present => exact distinct.modifyService fun _ _ => rfl
  | none =>
    refine distinct.withServices (nodup_map_concat distinct.services ?_)
    simpa [service?] using found

/-- A source is declared under a new name. -/
theorem namesDistinct_sourceAdded (distinct : model.NamesDistinct) {source : Source}
    (done : sourceAdded model source = .ok edited) : edited.model.NamesDistinct := by
  -- A source is added only if its name is new.
  obtain ⟨new, rfl⟩ := eq_of_sourceAdded done
  exact distinct.withSources (nodup_map_concat distinct.sources new)

/-- A user is added under a new name. -/
theorem namesDistinct_userAdded (distinct : model.NamesDistinct) {user : User}
    (proper : (user.packages.map (·.name)).Nodup) (done : userAdded model user = .ok edited) :
    edited.model.NamesDistinct := by
  -- A known user is not added, and another goes to the end.
  obtain ⟨-, rfl | ⟨new, rfl⟩⟩ := eq_of_userAdded done
  · exact distinct
  · refine distinct.withUsers (nodup_map_concat distinct.users new) ?_
    exact List.forall_mem_append.2 ⟨distinct.userPackages, List.forall_mem_singleton.2 proper⟩

/-- The users who are left have different names. -/
theorem namesDistinct_userRemoved (distinct : model.NamesDistinct) {username : String}
    (done : userRemoved model username = .ok edited) : edited.model.NamesDistinct := by
  -- Removing is filtering, so nothing new stands among the users.
  obtain ⟨-, rfl⟩ := eq_of_userRemoved done
  exact distinct.withUsers (nodup_map_filter distinct.users _)
    fun user kept => distinct.userPackages user (List.mem_filter.1 kept).1

/-- A user keeps the packages under another name. -/
theorem packages_renamed (newName : String) (user : User) :
    (renamed newName user).packages = user.packages := by
  rw [renamed]
  -- Renaming touches the name and sometimes the description.
  split <;> rfl

/-- A user gets the given name. -/
theorem username_renamed (newName : String) (user : User) :
    (renamed newName user).username = newName := by
  rw [renamed]
  -- Renaming touches the name and sometimes the description.
  split <;> rfl

/-- A user is renamed to a new name, or keeps the old one. -/
theorem namesDistinct_userRenamed (distinct : model.NamesDistinct) {oldName newName : String}
    (done : userRenamed model oldName newName = .ok edited) : edited.model.NamesDistinct := by
  -- The new name is free or the old one, and the packages stay with the user.
  obtain ⟨-, free, rfl⟩ := eq_of_userRenamed done
  refine distinct.withUsers (nodup_map_modifyFirst distinct.users fun other _ accepted => ?_)
    (forall_mem_modifyFirst distinct.userPackages fun other among => ?_)
  · rw [username_renamed, beq_iff_eq.1 accepted]
    exact free
  · rw [packages_renamed]
    exact distinct.userPackages other among

/-- An edit leaves the names different from each other. -/
theorem namesDistinct_apply {edit : Edit} (distinct : model.NamesDistinct) (proper : edit.IsProper)
    (done : apply model edit = .ok edited) : edited.model.NamesDistinct := by
  -- Each edit touches one list of names, in which it adds, drops or changes a single item.
  cases edit with
  | addSystemPackage package =>
    obtain rfl := Except.ok.inj done
    exact distinct.withPackages (nodup_addPackage distinct.packages package)
  | removeSystemPackage name =>
    obtain rfl := Except.ok.inj done
    exact distinct.withPackages (nodup_removePackage distinct.packages name)
  | addUserPackage username package =>
    obtain ⟨user, found, answered⟩ := bind_eq_ok_iff.1 done
    obtain rfl := Except.ok.inj answered
    have packages := distinct.packages_of_requireUser found
    exact distinct.modifyUserPackages username (nodup_addPackage packages package)
  | removeUserPackage username name =>
    obtain ⟨user, found, answered⟩ := bind_eq_ok_iff.1 done
    obtain rfl := Except.ok.inj answered
    have packages := distinct.packages_of_requireUser found
    exact distinct.modifyUserPackages username (nodup_removePackage packages name)
  | toggleService service =>
    obtain rfl := Except.ok.inj done
    exact namesDistinct_serviceToggled distinct service
  | updateService service =>
    obtain ⟨⟨⟩, -, replaced⟩ := bind_eq_ok_iff.1 done
    obtain ⟨present, -, answered⟩ := bind_eq_ok_iff.1 replaced
    obtain rfl := Except.ok.inj answered
    exact distinct.modifyService fun _ same => same.symm
  | setServiceOption name key value =>
    obtain ⟨⟨⟩, -, replaced⟩ := bind_eq_ok_iff.1 done
    obtain ⟨present, -, answered⟩ := bind_eq_ok_iff.1 replaced
    obtain rfl := Except.ok.inj answered
    exact distinct.modifyService fun _ _ => rfl
  | removeServiceOption name key =>
    obtain ⟨present, -, answered⟩ := bind_eq_ok_iff.1 done
    obtain rfl := Except.ok.inj answered
    exact distinct.modifyService fun _ _ => rfl
  | addSource source => exact namesDistinct_sourceAdded distinct done
  | removeSource name =>
    obtain rfl := Except.ok.inj done
    exact distinct.withSources (nodup_map_filter distinct.sources _)
  | addUser user => exact namesDistinct_userAdded distinct proper done
  | removeUser username => exact namesDistinct_userRemoved distinct done
  | renameUser oldName newName => exact namesDistinct_userRenamed distinct done
  | setExperimentalFeatures features =>
    obtain rfl := Except.ok.inj done
    exact ⟨distinct.packages, distinct.services, distinct.sources, distinct.users,
      distinct.userPackages⟩

/-- An edit that adds something or removes something. -/
def AddsOrRemoves : Edit → Prop
  | addSystemPackage _ | removeSystemPackage _ | addUserPackage _ _ | removeUserPackage _ _
  | removeServiceOption _ _ | addSource _ | removeSource _ | addUser _ | removeUser _ => True
  -- These edits change what is there, and answer otherwise or not at all.
  | toggleService _ | updateService _ | setServiceOption _ _ _ | renameUser _ _
  | setExperimentalFeatures _ => False

/-- Removing a source tells whether the model has changed. -/
theorem sourceRemoved_eq_false_iff {name : String} :
    model.sources.any (·.name == name) = false ↔ (sourceRemoved model name).model = model := by
  -- Nothing of the name is found exactly if the filter keeps everything.
  have kept : model.sources.any (·.name == name) = false ↔
      model.sources.filter (·.name != name) = model.sources := by
    simp
  refine kept.trans ⟨fun same => ?_, fun same => congrArg (·.sources) same⟩
  rw [sourceRemoved, same]

/-- Adding a user tells whether the model has changed. -/
theorem userAdded_eq_false_iff {user : User} {told : Bool}
    (done : userAdded model user = .ok edited) (answer : edited.answer = some told) :
    told = false ↔ edited.model = model := by
  obtain ⟨-, rfl | ⟨-, rfl⟩⟩ := eq_of_userAdded done
  · obtain rfl := Option.some.inj answer
    exact iff_of_true rfl rfl
  · obtain rfl := Option.some.inj answer
    refine iff_of_false Bool.noConfusion fun same => ?_
    -- One more user makes another list of users.
    have users := congrArg (·.users) same
    simp at users

/-- An edit that adds or removes and does not find anything to do leaves the model as it is. -/
theorem eq_false_iff_of_addsOrRemoves {edit : Edit} (adds : edit.AddsOrRemoves)
    (done : apply model edit = .ok edited) {told : Bool} (answer : edited.answer = some told) :
    told = false ↔ edited.model = model := by
  -- What an edit tells is whether the one list that it touches has changed.
  cases edit with
  | addSystemPackage package =>
    obtain rfl := Except.ok.inj done
    obtain rfl := Option.some.inj answer
    exact addPackage_eq_false_iff.trans withPackages_eq_self_iff.symm
  | removeSystemPackage name =>
    obtain rfl := Except.ok.inj done
    obtain rfl := Option.some.inj answer
    exact removePackage_eq_false_iff.trans withPackages_eq_self_iff.symm
  | addUserPackage username package =>
    obtain ⟨user, found, answered⟩ := bind_eq_ok_iff.1 done
    obtain rfl := Except.ok.inj answered
    obtain rfl := Option.some.inj answer
    exact addPackage_eq_false_iff.trans (modifyUser_packages_eq_self_iff found).symm
  | removeUserPackage username name =>
    obtain ⟨user, found, answered⟩ := bind_eq_ok_iff.1 done
    obtain rfl := Except.ok.inj answered
    obtain rfl := Option.some.inj answer
    exact removePackage_eq_false_iff.trans (modifyUser_packages_eq_self_iff found).symm
  | removeServiceOption name key =>
    obtain ⟨present, found, answered⟩ := bind_eq_ok_iff.1 done
    obtain rfl := Except.ok.inj answered
    obtain rfl := Option.some.inj answer
    rw [modifyService_erase_eq_self_iff found, Option.isSome_eq_false_iff, Option.isNone_iff_eq_none]
  | addSource source =>
    obtain ⟨-, rfl⟩ := eq_of_sourceAdded done
    cases answer
  | removeSource name =>
    obtain rfl := Except.ok.inj done
    obtain rfl := Option.some.inj answer
    exact sourceRemoved_eq_false_iff
  | addUser user => exact userAdded_eq_false_iff done answer
  | removeUser username =>
    obtain ⟨-, rfl⟩ := eq_of_userRemoved done
    cases answer
  | _ => exact adds.elim

/-- An edit leaves the names different from each other, whether it fails or not. -/
theorem namesDistinct_leave {edit : Edit} (distinct : model.NamesDistinct) (proper : edit.IsProper) :
    (leave model edit).NamesDistinct := by
  rw [leave_eq_after, after]
  cases done : apply model edit with
  -- An error leaves the model as it was.
  | error error => exact distinct
  | ok edited => exact namesDistinct_apply distinct proper done

/-- An edit that fails leaves the model where it stands as it was. -/
theorem eq_of_run_perform_eq_error {edit : Edit} {error : ModelError} {left : Model}
    (failed : edit.perform.run model = .error error left) : left = model := by
  rw [run_perform] at failed
  -- What stands is replaced only where an edit is done.
  cases done : apply model edit with
  | error cause =>
    rw [done] at failed
    cases failed
    rfl
  | ok edited =>
    rw [done] at failed
    cases failed

/-- An edit where the model stands that adds or removes tells whether the model has changed. -/
theorem eq_false_iff_of_run_perform_eq_ok {edit : Edit} {told : Bool} {left : Model}
    (adds : edit.AddsOrRemoves) (answered : edit.perform.run model = .ok (some told) left) :
    told = false ↔ left = model := by
  rw [run_perform] at answered
  cases done : apply model edit with
  | error cause =>
    rw [done] at answered
    cases answered
  | ok edited =>
    rw [done, InPlace.settled, EStateM.Result.ok.injEq] at answered
    -- What is told and what is left are those of the edit.
    obtain ⟨answer, rfl⟩ := answered
    exact eq_false_iff_of_addsOrRemoves adds done answer

/--
The names in every list of a model stay different from each other, edit after edit, and edits that
fail or find nothing to do leave no trace.

The edits are carried out on the model where it stands, so a failure could leave a part of an edit behind.
-/
theorem namesDistinct_foldl_leave {edits : List Edit} (distinct : model.NamesDistinct)
    (proper : ∀ edit ∈ edits, edit.IsProper) :
    (∀ done, done <+: edits → (done.foldl leave model).NamesDistinct) ∧
      ∀ done edit, done ++ [edit] <+: edits →
        (∀ error left, edit.perform.run (done.foldl leave model) = .error error left →
          left = done.foldl leave model) ∧
        (edit.AddsOrRemoves → ∀ told left,
          edit.perform.run (done.foldl leave model) = .ok (some told) left →
            (told = false ↔ left = done.foldl leave model)) := by
  refine ⟨fun done within => ?_, fun done edit _ =>
    ⟨fun error left => eq_of_run_perform_eq_error,
      fun adds told left => eq_false_iff_of_run_perform_eq_ok adds⟩⟩
  -- Step by step from the beginning: every edit keeps what the edits before it have kept.
  induction done using List.reverseRecOn with
  | nil => exact distinct
  | append_singleton done edit ih =>
    rw [List.foldl_append, List.foldl_cons, List.foldl_nil]
    have before := ih ((List.prefix_append done [edit]).trans within)
    exact namesDistinct_leave before (proper edit (within.subset (by simp)))

/-- An edit that succeeds, one that fails after it and one that finds nothing to do. -/
def mixedEdits : List Edit :=
  [addUser (.named "ada"), renameUser placeholderName "ada", removeSystemPackage "emacs"]

/-- A user is not renamed to one who has just been added, and nothing is left of the attempt. -/
theorem namesDistinct_foldl_leave_mixed :
    Model.initial.NamesDistinct ∧ (∀ edit ∈ mixedEdits, edit.IsProper) ∧
      (mixedEdits.foldl leave .initial).NamesDistinct ∧
      (∃ left, (renameUser placeholderName "ada").perform.run
          (leave .initial (addUser (.named "ada"))) = .error (.duplicateUser "ada") left ∧
        left = leave .initial (addUser (.named "ada"))) ∧
      ∃ left, (removeSystemPackage "emacs").perform.run
          ([addUser (.named "ada"), renameUser placeholderName "ada"].foldl leave .initial) =
            .ok (some false) left ∧
        left = [addUser (.named "ada"), renameUser placeholderName "ada"].foldl leave .initial := by
  have initial : Model.initial.NamesDistinct := by
    constructor <;> decide
  have proper : ∀ edit ∈ mixedEdits, edit.IsProper := by
    simp [mixedEdits, IsProper, User.named]
  obtain ⟨stays, traceless⟩ := namesDistinct_foldl_leave initial proper
  -- One edit of the three is refused, and another one finds nothing to do.
  have refused := (traceless [addUser (.named "ada")] (renameUser placeholderName "ada")
    (List.prefix_append _ [removeSystemPackage "emacs"])).1
  have idle := (traceless [addUser (.named "ada"), renameUser placeholderName "ada"]
    (removeSystemPackage "emacs") (List.prefix_refl _)).2
  exact ⟨initial, proper, stays mixedEdits (List.prefix_refl _), ⟨_, rfl, refused _ _ rfl⟩,
    ⟨_, rfl, (idle trivial false _ rfl).1 rfl⟩⟩

end Edit

end NixKeeper
