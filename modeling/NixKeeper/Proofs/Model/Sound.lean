import NixKeeper.Proofs.Model.Rules

/-!
Models whose items are known by different names, and models that hold all that another one has.

A reading of a file leads from one sound model to another that extends it.
-/

namespace NixKeeper

/-- A valid model whose items are known by different names. -/
structure Model.Sound (model : Model) : Prop where
  valid : model.validate = .ok ()
  usernames : (model.users.map (·.username)).Nodup
  sources : (model.sources.map (·.name)).Nodup
  services : (model.system.services.map (·.name)).Nodup
  packages : (model.system.packages.map (·.name)).Nodup
  userPackages : ∀ user ∈ model.users, (user.packages.map (·.name)).Nodup

/--
The users keep their places, their packages come first among the later ones, and their names stay.

Only a user who stands alone under the placeholder name may be renamed.
-/
def UsersStay (placeholder : String) (users later : List User) : Prop :=
  -- The one user with the placeholder's name may be taken over by another.
  ∀ (index : Nat) (user : User), users[index]? = some user →
    ∃ same, later[index]? = some same ∧ user.packages <+: same.packages ∧
      (same.username = user.username ∨ users = [user] ∧ user.username = placeholder)

/-- What a model has comes first in a later one. -/
structure Model.Extends (placeholder : String) (model later : Model) : Prop where
  packages : model.system.packages <+: later.system.packages
  services : model.system.services.map (·.name) <+: later.system.services.map (·.name)
  users : UsersStay placeholder model.users later.users

namespace Model.Sound

variable {model : Model}

/-- Other users keep a model sound if they have names of their own and different packages. -/
theorem withUsers (sound : model.Sound) {users : List User} (inhabited : users ≠ [])
    (good : ∀ user ∈ users, user.username ≠ "" ∧ (user.packages.map (·.name)).Nodup)
    (distinct : (users.map (·.username)).Nodup) : Sound { model with users } :=
  -- Four of the five conditions are about other parts or about the users given.
  { sound with
    valid := validate_eq_ok_iff.2 ((validate_eq_ok_iff.1 sound.valid).withUsers inhabited
      fun user among => (good user among).1)
    usernames := distinct
    userPackages := fun user among => (good user among).2 }

/-- Every user of a sound model has a name and different packages. -/
theorem good (sound : model.Sound) :
    ∀ user ∈ model.users, user.username ≠ "" ∧ (user.packages.map (·.name)).Nodup :=
  -- Validity has the names, and soundness the packages.
  fun user among => ⟨(validate_eq_ok_iff.1 sound.valid).named user among,
    sound.userPackages user among⟩

/-- Other settings keep a model sound if the services are free of their switches and all names differ. -/
theorem withSystem (sound : model.Sound) {system : System}
    (switches : ∀ service ∈ system.services, enableOption ∉ service.options.keys)
    (services : (system.services.map (·.name)).Nodup)
    (packages : (system.packages.map (·.name)).Nodup) : Sound { model with system } := by
  obtain ⟨inhabited, named, -, sources⟩ := validate_eq_ok_iff.1 sound.valid
  -- Only what is about the settings has to be shown again.
  exact
    { sound with
      valid := validate_eq_ok_iff.2 ⟨inhabited, named, switches, sources⟩
      services
      packages }

/-- Other services keep a model sound if they are free of their switches and have different names. -/
theorem withServices (sound : model.Sound) {services : List Service}
    (switches : ∀ service ∈ services, enableOption ∉ service.options.keys)
    (distinct : (services.map (·.name)).Nodup) : (model.withServices services).Sound :=
  -- The packages of the system stay.
  sound.withSystem switches distinct sound.packages

/-- Other sources keep a model sound if they have different names. -/
theorem withSources (sound : model.Sound) (nixVersion : String) {sources : List Source}
    (distinct : (sources.map (·.name)).Nodup) : Sound { model with nixVersion, sources } := by
  obtain ⟨inhabited, named, switches, -⟩ := validate_eq_ok_iff.1 sound.valid
  -- Distinct sources are asked for by validity and by soundness.
  exact
    { sound with
      valid := validate_eq_ok_iff.2 ⟨inhabited, named, switches, distinct⟩
      sources := distinct }

/-- No service of a sound model has its switch among its options. -/
theorem switches (sound : model.Sound) :
    ∀ service ∈ model.system.services, enableOption ∉ service.options.keys :=
  -- This is one of the rules that validity checks.
  (validate_eq_ok_iff.1 sound.valid).switches

end Model.Sound

namespace UsersStay

variable {placeholder : String} {users later last : List User}

/-- Users stay where others only follow them. -/
theorem of_front (front : users <+: later) : UsersStay placeholder users later := by
  intro index user there
  obtain ⟨more, rfl⟩ := front
  -- Whoever stands at a place stands there still when others are appended.
  have within : index < users.length := (List.getElem?_eq_some_iff.1 there).1
  rw [List.getElem?_append_left within]
  exact ⟨user, there, List.prefix_rfl, .inl rfl⟩

/-- There are not fewer users later. -/
theorem length_le (stay : UsersStay placeholder users later) : users.length ≤ later.length := by
  -- The first place behind the later users would be empty, though somebody stands there before.
  by_contra fewer
  have within : later.length < users.length := by omega
  obtain ⟨same, there, -⟩ := stay later.length _ (List.getElem?_eq_getElem within)
  rw [List.getElem?_eq_none (Nat.le_refl _)] at there
  cases there

/-- Users who stay twice stay. -/
theorem trans (first : UsersStay placeholder users later) (second : UsersStay placeholder later last) :
    UsersStay placeholder users last := by
  intro index user there
  -- The user is followed through both steps at the same index.
  obtain ⟨next, thereNext, packages, name⟩ := first index user there
  obtain ⟨same, thereLast, morePackages, nextName⟩ := second index next thereNext
  refine ⟨same, thereLast, packages.trans morePackages, ?_⟩
  rcases nextName with kept | ⟨alone, isPlaceholder⟩
  · exact name.imp_left kept.trans
  · -- Whoever stands alone later stood alone before, since nobody has left.
    refine .inr (name.elim (fun kept => ⟨?_, kept ▸ isPlaceholder⟩) id)
    have single := first.length_le
    rw [alone, List.length_singleton] at single
    obtain ⟨within, rfl⟩ := List.getElem?_eq_some_iff.1 there
    obtain ⟨only, rfl⟩ := List.length_eq_one_iff.1 (show users.length = 1 by omega)
    simp

/-- Users stay where one of them is changed who keeps the name and the packages. -/
theorem modify (users : List User) (index : Nat) {change : User → User}
    (keeps : ∀ user, (change user).username = user.username ∧ user.packages <+: (change user).packages) :
    UsersStay placeholder users (users.modify index change) := by
  intro place user there
  -- Only the user at the given place is another one, with the same name.
  by_cases here : index = place
  · subst here
    refine ⟨change user, ?_, (keeps user).2, .inl (keeps user).1⟩
    rw [List.getElem?_modify, there]
    simp
  · refine ⟨user, ?_, List.prefix_rfl, .inl rfl⟩
    simp [here, there]

end UsersStay

namespace Model.Extends

variable {placeholder : String} {model later last : Model}

/-- A model extends itself. -/
theorem refl (model : Model) : model.Extends placeholder model :=
  -- Every list is a front of itself.
  ⟨List.prefix_rfl, List.prefix_rfl, .of_front List.prefix_rfl⟩

/-- What extends twice extends. -/
theorem trans (first : model.Extends placeholder later) (second : later.Extends placeholder last) :
    model.Extends placeholder last :=
  -- A front of a front is a front.
  ⟨first.packages.trans second.packages, first.services.trans second.services,
    first.users.trans second.users⟩

end Model.Extends

end NixKeeper
