import Mathlib.Data.List.Induction
import Mathlib.Logic.Basic
import NixKeeper.Model.Edit
import NixKeeper.Proofs.Failure
import NixKeeper.Proofs.Table

/-!
The rules of a model one by one, and the edits that break them.

A valid model stays valid under every edit but two: a service may be added with its switch among its
options, and a username that several users bear may be removed from all users there are.
-/

namespace NixKeeper

/-- A list with its first accepted item changed is empty only if it was. -/
theorem modifyFirst_ne_nil {α : Type} {items : List α} (nonempty : items ≠ [])
    (accepts : α → Bool) (change : α → α) : modifyFirst accepts change items ≠ [] := by
  cases items with
  | nil => exact absurd rfl nonempty
  | cons item rest =>
    rw [modifyFirst]
    -- The first item is changed or kept.
    split <;> simp

/-- What holds of all items and of the changed ones holds of all items after a change. -/
theorem forall_mem_modifyFirst {α : Type} {accepts : α → Bool} {change : α → α} {items : List α}
    {good : α → Prop} (all : ∀ item ∈ items, good item) (changed : ∀ item ∈ items, good (change item)) :
    ∀ item ∈ modifyFirst accepts change items, good item := by
  induction items with
  | nil => exact all
  | cons item rest ih =>
    obtain ⟨here, later⟩ := List.forall_mem_cons.1 all
    obtain ⟨changedHere, changedLater⟩ := List.forall_mem_cons.1 changed
    rw [modifyFirst]
    -- The first accepted item is changed, and nothing behind it.
    split
    · exact List.forall_mem_cons.2 ⟨changedHere, later⟩
    · exact List.forall_mem_cons.2 ⟨here, ih later changedLater⟩

namespace Model

/-- The rules of a model. -/
structure KeepsRules (model : Model) : Prop where
  inhabited : model.users ≠ []
  named : ∀ user ∈ model.users, user.username ≠ ""
  /-- The switch of a service is none of its options. -/
  switches : ∀ service ∈ model.system.services, enableOption ∉ service.options.keys
  sources : (model.sources.map (·.name)).Nodup

/-- Options are accepted if the switch is not among them. -/
theorem checkOptions_eq_ok_iff {service : String} {keys : List String} :
    checkOptions service keys = .ok () ↔ enableOption ∉ keys := by
  rw [checkOptions]
  -- The check is the membership and nothing else.
  by_cases switched : enableOption ∈ keys <;> simp [switched]

/-- Sources are accepted if all names are different, also from those before. -/
theorem checkSources_eq_ok_iff {before : List String} {sources : List Source} :
    checkSources before sources = .ok () ↔
      (sources.map (·.name)).Nodup ∧ ∀ source ∈ sources, source.name ∉ before := by
  induction sources generalizing before with
  | nil => simp [checkSources]
  | cons source rest ih =>
    rw [checkSources]
    by_cases known : source.name ∈ before
    · simp [known]
    · -- The names of the rest differ from the first one and from those before it.
      simp only [List.contains_iff_mem, known, if_false, ih, List.map_cons, List.nodup_cons,
        List.mem_cons]
      grind

/-- A model is valid if it keeps the rules. -/
theorem validate_eq_ok_iff {model : Model} : model.validate = .ok () ↔ model.KeepsRules := by
  -- The rules are checked in turn, and a broken one ends the check.
  have refused {error : ModelError} {next : PUnit → Except ModelError Unit} :
      (throw error >>= next) ≠ .ok () := fun passed => by cases passed
  rw [validate]
  cases empty : model.users.isEmpty with
  | true =>
    exact ⟨fun passed => absurd passed refused,
      fun keeps => absurd (List.isEmpty_iff.1 empty) keeps.inhabited⟩
  | false =>
    cases nameless : model.users.any (·.username == "") with
    | true =>
      obtain ⟨user, within, unnamed⟩ := List.any_eq_true.1 nameless
      exact ⟨fun passed => absurd passed refused,
        fun keeps => absurd (beq_iff_eq.1 unnamed) (keeps.named user within)⟩
    | false =>
      have inhabited : model.users ≠ [] := by simpa using empty
      have named : ∀ user ∈ model.users, user.username ≠ "" := by simpa using nameless
      simp only [Bool.false_eq_true, if_false, checks_eq_ok_iff, forM_eq_ok_iff,
        checkOptions_eq_ok_iff, checkSources_eq_ok_iff]
      exact ⟨fun passed => ⟨inhabited, named, passed.1, passed.2.1⟩,
        fun keeps => ⟨keeps.switches, keeps.sources, fun _ _ => List.not_mem_nil⟩⟩

namespace KeepsRules

variable {model : Model}

/-- No rule is about packages. -/
theorem withPackages (keeps : model.KeepsRules) (packages : List Package) :
    (model.withPackages packages).KeepsRules :=
  -- No rule is about the packages of the system.
  ⟨keeps.inhabited, keeps.named, keeps.switches, keeps.sources⟩

/-- Services without their switches among the options keep the rules. -/
theorem withServices (keeps : model.KeepsRules) {services : List Service}
    (switches : ∀ service ∈ services, enableOption ∉ service.options.keys) :
    (model.withServices services).KeepsRules :=
  -- Only the rule on switches is about the services.
  ⟨keeps.inhabited, keeps.named, switches, keeps.sources⟩

/-- A service is changed within the rules if the change brings its switch into no options. -/
theorem modifyService (keeps : model.KeepsRules) (name : String) {change : Service → Service}
    (switches : ∀ service ∈ model.system.services, enableOption ∉ (change service).options.keys) :
    (model.modifyService name change).KeepsRules :=
  -- Of the services one is changed, and the others are as before.
  keeps.withServices (forall_mem_modifyFirst keeps.switches switches)

/-- Users with names keep the rules, as long as there is one. -/
theorem withUsers (keeps : model.KeepsRules) {users : List User} (inhabited : users ≠ [])
    (named : ∀ user ∈ users, user.username ≠ "") : KeepsRules { model with users } :=
  -- Two of the rules are about the users.
  ⟨inhabited, named, keeps.switches, keeps.sources⟩

/-- A user is changed within the rules if a name is left. -/
theorem modifyUser (keeps : model.KeepsRules) (username : String) {change : User → User}
    (named : ∀ user ∈ model.users, (change user).username ≠ "") :
    (model.modifyUser username change).KeepsRules :=
  -- No user goes, and the changed one keeps a name.
  keeps.withUsers (modifyFirst_ne_nil keeps.inhabited _ _) (forall_mem_modifyFirst keeps.named named)

end KeepsRules

end Model

namespace Edit

open Model

variable {model : Model} {edited : Edited}

/--
An edit after which a model is not valid any more.

A service is added as it is, also with its switch among its options. Users are removed by name, also if
all of several users bear it.
-/
def Breaks (model : Model) : Edit → Prop
  | toggleService service =>
    model.service? service.name = none ∧ enableOption ∈ service.options.keys
  -- All users go at once, and there was more than one.
  | removeUser username =>
    2 ≤ model.users.length ∧ ∀ user ∈ model.users, user.username = username
  | _ => False

instance (model : Model) : (edit : Edit) → Decidable (edit.Breaks model)
  | toggleService _ => inferInstanceAs (Decidable (_ ∧ _))
  | removeUser _ => inferInstanceAs (Decidable (_ ∧ _))
  | addSystemPackage _ | removeSystemPackage _ | addUserPackage _ _ | removeUserPackage _ _
  | updateService _ | setServiceOption _ _ _ | removeServiceOption _ _ | addSource _ | removeSource _
  | addUser _ | renameUser _ _ | setExperimentalFeatures _ => .isFalse id

/-- A service that is switched over or added keeps the rules if its switch is none of its options. -/
theorem keepsRules_serviceToggled (keeps : model.KeepsRules) {service : Service}
    (whole : ¬ (toggleService service).Breaks model) :
    (serviceToggled model service).model.KeepsRules := by
  rw [serviceToggled]
  cases found : model.service? service.name with
  | some present => exact keeps.modifyService service.name keeps.switches
  | none =>
    -- A new service is added as it is, so its own options have to be free of the switch.
    have free : enableOption ∉ service.options.keys := by
      intro switched
      exact whole ⟨found, switched⟩
    refine keeps.withServices (List.forall_mem_append.2 ⟨keeps.switches, ?_⟩)
    simpa using free

/-- A source is declared behind the others, under a name that was free. -/
theorem eq_of_sourceAdded {source : Source} (done : sourceAdded model source = .ok edited) :
    source.name ∉ model.sources.map (·.name) ∧
      edited = ⟨{ model with sources := model.sources ++ [source] }, none⟩ := by
  rw [sourceAdded] at done
  split at done
  · cases done
  · split at done
    · cases done
    · -- Only the last branch adds the source.
      rename_i new
      exact ⟨by simpa using new, (Except.ok.inj done).symm⟩

/-- A user with a name is added behind the others, unless somebody bears the name. -/
theorem eq_of_userAdded {user : User} (done : userAdded model user = .ok edited) :
    user.username ≠ "" ∧ (edited = ⟨model, some false⟩ ∨
      user.username ∉ model.users.map (·.username) ∧
        edited = ⟨{ model with users := model.users ++ [user] }, some true⟩) := by
  rw [userAdded] at done
  split at done
  · cases done
  · rename_i named
    refine ⟨named, ?_⟩
    split at done
    · exact .inl (Except.ok.inj done).symm
    · -- The name is not empty, and only a free one is added.
      rename_i new
      exact .inr ⟨by simpa using new, (Except.ok.inj done).symm⟩

/-- The users of a name are removed from several users. -/
theorem eq_of_userRemoved {username : String} (done : userRemoved model username = .ok edited) :
    model.users.length ≠ 1 ∧
      edited = ⟨{ model with users := model.users.filter (·.username != username) }, none⟩ := by
  rw [userRemoved] at done
  split at done
  · cases done
  · split at done
    · cases done
    · -- Neither an unknown user nor the last one is removed.
      rename_i several
      exact ⟨several, (Except.ok.inj done).symm⟩

/-- A user is renamed to a name that is free, or the user's own. -/
theorem eq_of_userRenamed {oldName newName : String}
    (done : userRenamed model oldName newName = .ok edited) :
    newName ≠ "" ∧ (newName = oldName ∨ newName ∉ model.users.map (·.username)) ∧
      edited = ⟨model.modifyUser oldName (renamed newName), none⟩ := by
  rw [userRenamed] at done
  split at done
  · cases done
  · rename_i named
    refine ⟨named, ?_⟩
    dsimp only at done
    split at done
    · cases done
    · -- A name that is taken is refused, unless it is the user's own.
      rename_i free
      obtain ⟨user, -, answered⟩ := bind_eq_ok_iff.1 done
      refine ⟨?_, (Except.ok.inj answered).symm⟩
      by_cases same : newName = oldName
      · exact .inl same
      · refine .inr fun taken => free ⟨Ne.symm same, ?_⟩
        simpa using taken

/-- A source that is declared has a name of its own. -/
theorem keepsRules_sourceAdded (keeps : model.KeepsRules) {source : Source}
    (done : sourceAdded model source = .ok edited) : edited.model.KeepsRules := by
  -- A source is added only if its name is new.
  obtain ⟨new, rfl⟩ := eq_of_sourceAdded done
  refine ⟨keeps.inhabited, keeps.named, keeps.switches, ?_⟩
  simpa [List.nodup_append, keeps.sources] using new

/-- A user who is added has a name. -/
theorem keepsRules_userAdded (keeps : model.KeepsRules) {user : User}
    (done : userAdded model user = .ok edited) : edited.model.KeepsRules := by
  -- A known user is not added, and another has been checked for a name.
  obtain ⟨named, rfl | ⟨-, rfl⟩⟩ := eq_of_userAdded done
  · exact keeps
  · refine keeps.withUsers (by simp) (List.forall_mem_append.2 ⟨keeps.named, ?_⟩)
    simpa using named

/-- Somebody stays when the users of a name are removed, unless all of several users bear it. -/
theorem keepsRules_userRemoved (keeps : model.KeepsRules) {username : String}
    (whole : ¬ (removeUser username).Breaks model)
    (done : userRemoved model username = .ok edited) : edited.model.KeepsRules := by
  obtain ⟨several, rfl⟩ := eq_of_userRemoved done
  -- There are several users, so one of them has to bear another name.
  have many : 2 ≤ model.users.length := by
    have := List.length_pos_iff.2 keeps.inhabited
    omega
  obtain ⟨other, within, different⟩ : ∃ user ∈ model.users, user.username ≠ username := by
    by_contra none
    exact whole ⟨many, by simpa using none⟩
  refine keeps.withUsers ?_ fun user kept => keeps.named user (List.mem_filter.1 kept).1
  exact List.ne_nil_of_mem (List.mem_filter.2 ⟨within, by simpa using different⟩)

/-- A user who is renamed has a name. -/
theorem keepsRules_userRenamed (keeps : model.KeepsRules) {oldName newName : String}
    (done : userRenamed model oldName newName = .ok edited) : edited.model.KeepsRules := by
  obtain ⟨named, -, rfl⟩ := eq_of_userRenamed done
  refine keeps.modifyUser oldName fun user _ => ?_
  rw [renamed]
  -- The new name has been checked.
  split <;> exact named

/-- Every edit but the two that break a rule keeps the rules. -/
theorem keepsRules_apply {edit : Edit} (keeps : model.KeepsRules) (whole : ¬ edit.Breaks model)
    (done : apply model edit = .ok edited) : edited.model.KeepsRules := by
  -- Each edit touches one list, and checks what the rule for that list asks.
  cases edit with
  | addSystemPackage package | removeSystemPackage name =>
    obtain rfl := Except.ok.inj done
    exact keeps.withPackages _
  | addUserPackage username package | removeUserPackage username name =>
    obtain ⟨user, -, answered⟩ := bind_eq_ok_iff.1 done
    obtain rfl := Except.ok.inj answered
    exact keeps.modifyUser username keeps.named
  | toggleService service =>
    obtain rfl := Except.ok.inj done
    exact keepsRules_serviceToggled keeps whole
  | updateService service =>
    obtain ⟨⟨⟩, checked, replaced⟩ := bind_eq_ok_iff.1 done
    obtain ⟨present, -, answered⟩ := bind_eq_ok_iff.1 replaced
    obtain rfl := Except.ok.inj answered
    exact keeps.modifyService service.name fun _ _ => checkOptions_eq_ok_iff.1 checked
  | setServiceOption name key value =>
    obtain ⟨⟨⟩, checked, replaced⟩ := bind_eq_ok_iff.1 done
    obtain ⟨present, -, answered⟩ := bind_eq_ok_iff.1 replaced
    obtain rfl := Except.ok.inj answered
    have other : enableOption ≠ key := by simpa using checkOptions_eq_ok_iff.1 checked
    refine keeps.modifyService name fun service within switched => ?_
    exact (Table.eq_or_mem_of_mem_keys_insert switched).elim other (keeps.switches service within)
  | removeServiceOption name key =>
    obtain ⟨present, -, answered⟩ := bind_eq_ok_iff.1 done
    obtain rfl := Except.ok.inj answered
    refine keeps.modifyService name fun service within switched => ?_
    exact keeps.switches service within (Table.mem_keys_of_mem_keys_erase switched)
  | addSource source => exact keepsRules_sourceAdded keeps done
  | removeSource name =>
    obtain rfl := Except.ok.inj done
    exact ⟨keeps.inhabited, keeps.named, keeps.switches,
      keeps.sources.sublist (List.filter_sublist.map _)⟩
  | addUser user => exact keepsRules_userAdded keeps done
  | removeUser username => exact keepsRules_userRemoved keeps whole done
  | renameUser oldName newName => exact keepsRules_userRenamed keeps done
  | setExperimentalFeatures features =>
    obtain rfl := Except.ok.inj done
    exact ⟨keeps.inhabited, keeps.named, keeps.switches, keeps.sources⟩

/-- The two edits that break a rule are carried out. -/
theorem exists_apply_of_breaks {edit : Edit} (breaks : edit.Breaks model) :
    ∃ edited, apply model edit = .ok edited ∧ ¬ edited.model.KeepsRules := by
  cases edit with
  | toggleService service =>
    -- The added service is the one that breaks the rule.
    obtain ⟨absent, switched⟩ := breaks
    refine ⟨_, rfl, fun keeps => ?_⟩
    rw [serviceToggled, absent] at keeps
    exact keeps.switches _ (List.mem_append_right _ (List.mem_singleton.2 rfl)) switched
  | removeUser username =>
    -- The list is not that of a last user, and yet nobody is left.
    obtain ⟨many, same⟩ := breaks
    have present : model.users.any (·.username == username) = true := by
      obtain ⟨user, within⟩ := List.exists_mem_of_length_pos (Nat.lt_of_lt_of_le Nat.zero_lt_two many)
      exact List.any_eq_true.2 ⟨user, within, beq_iff_eq.2 (same user within)⟩
    have several : model.users.length ≠ 1 := by omega
    refine ⟨⟨{ model with users := model.users.filter (·.username != username) }, none⟩, ?_,
      fun keeps => keeps.inhabited ?_⟩
    · rw [apply, userRemoved, present, if_neg (by simp), if_neg several]
    · simpa using same
  | _ => exact breaks.elim

/-- A valid model stays valid after an edit unless the edit breaks a rule. -/
theorem validate_after_iff (valid : model.validate = .ok ()) (edit : Edit) :
    (after model edit).validate = .ok () ↔ ¬ edit.Breaks model := by
  have keeps := validate_eq_ok_iff.1 valid
  rw [validate_eq_ok_iff, after]
  constructor
  · -- A rule that is broken by the edit is broken by what it leaves.
    intro still breaks
    obtain ⟨edited, done, broken⟩ := exists_apply_of_breaks breaks
    rw [done] at still
    exact broken still
  · intro whole
    cases done : apply model edit with
    | error error => exact keeps
    | ok edited => exact keepsRules_apply keeps whole done

/--
A valid model is valid after every step of a sequence of edits exactly if no step breaks a rule.

Edits that are refused count as steps, which change nothing.
-/
theorem validate_foldl_after_iff (valid : model.validate = .ok ()) (edits : List Edit) :
    (∀ done, done <+: edits → (done.foldl after model).validate = .ok ()) ↔
      ∀ done edit, done ++ [edit] <+: edits → ¬ edit.Breaks (done.foldl after model) := by
  have step (done : List Edit) (edit : Edit) :
      (done ++ [edit]).foldl after model = after (done.foldl after model) edit := by
    rw [List.foldl_append, List.foldl_cons, List.foldl_nil]
  constructor
  · intro stays done edit within
    have before := stays done ((List.prefix_append done [edit]).trans within)
    exact (validate_after_iff before edit).1 (step done edit ▸ stays _ within)
  · -- Step by step from the beginning; a step that breaks no rule keeps the model valid.
    intro whole done within
    induction done using List.reverseRecOn with
    | nil => exact valid
    | append_singleton done edit ih =>
      have before := ih ((List.prefix_append done [edit]).trans within)
      rw [step]
      exact (validate_after_iff before edit).2 (whole done edit within)

/-- The placeholder may be replaced by a user with a name. -/
theorem validate_foldl_after_newOwner :
    Model.initial.validate = .ok () ∧
      ∀ done, done <+: [addUser (.named "ada"), removeUser placeholderName] →
        (done.foldl after .initial).validate = .ok () := by
  have valid : Model.initial.validate = .ok () := by decide
  refine ⟨valid, (validate_foldl_after_iff valid _).2 fun done edit within => ?_⟩
  -- There are two steps, and neither breaks a rule.
  cases done with
  | nil =>
    obtain rfl : edit = addUser (.named "ada") := by simpa using within
    decide
  | cons first rest =>
    obtain ⟨rfl, rfl, rfl⟩ : first = addUser (.named "ada") ∧ rest = [] ∧
        edit = removeUser placeholderName := by
      simpa [List.prefix_cons_iff, List.append_eq_cons_iff] using within
    decide

/-- A model with two users of one name. -/
def twinModel : Model :=
  { Model.initial with users := [.named "ada", .named "ada"] }

/-- A service whose switch stands among its options. -/
def switchedService : Service :=
  { Service.named "services.printing" with options := .ofList [(enableOption, .bool false)] }

/-- Removing a username that all users bear and adding a service with its switch break a rule. -/
theorem validate_after_ne_ok :
    twinModel.validate = .ok () ∧
      (after twinModel (removeUser "ada")).validate = .error .noUsers ∧
      Model.initial.validate = .ok () ∧
      (after .initial (toggleService switchedService)).validate =
        .error (.reservedOption "services.printing" enableOption) := by
  -- The two models and what is left of them are closed terms.
  decide

end Edit

end NixKeeper
