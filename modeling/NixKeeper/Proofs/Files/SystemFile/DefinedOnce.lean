import Mathlib.Data.List.Nodup
import NixKeeper.Proofs.Files.SystemFile.Ownership
import NixKeeper.Proofs.Files.SystemFile.Paths
import NixKeeper.Proofs.Model.Relocation
import NixKeeper.Proofs.Model.Rules

/-!
When the system file defines no path twice.

The settings of a machine, its users and their shells never share a path. Services may share one: under a
former and a current name, through an option that leads into another service, and with a setting.
-/

namespace NixKeeper.Files.SystemFile

/-- Keys that differ lead to paths that differ. -/
theorem dotted_injective (path : List Char) : (dotted path).Injective :=
  -- Behind the same path and the point only the keys can differ.
  fun _ _ same => (List.cons.inj (List.append_cancel_left same)).2

/-- The letters of a path made of two names. -/
theorem toList_dotted (path key : String) :
    (path ++ "." ++ key).toList = dotted path.toList key.toList := by
  -- The characters of a joined text are those of its parts.
  rw [String.toList_append, String.toList_append, List.append_assoc]
  rfl

/-- A path is divided at the same point, or one division leads through the other. -/
theorem dotted_eq_dotted {first second key other : List Char}
    (same : dotted first key = dotted second other) :
    first = second ∧ key = other ∨
      (∃ below, second = dotted first below ∧ key = dotted below other) ∨
      ∃ below, first = dotted second below ∧ other = dotted below key := by
  -- Of two divisions one comes first, and what is between them is the rest of a name.
  rcases List.append_eq_append_iff.1 same with ⟨more, longer, rest⟩ | ⟨more, longer, rest⟩
  · cases more with
    | nil => exact .inl ⟨by rw [longer, List.append_nil], (List.cons.inj rest).2⟩
    | cons c below =>
      obtain ⟨rfl, shape⟩ := List.cons.inj rest
      exact .inr (.inl ⟨below, longer, shape⟩)
  · cases more with
    | nil => exact .inl ⟨by rw [longer, List.append_nil], (List.cons.inj rest).2.symm⟩
    | cons c below =>
      obtain ⟨rfl, shape⟩ := List.cons.inj rest
      exact .inr (.inr ⟨below, longer, shape⟩)

section Settings

/-- No user has a key twice. -/
theorem nodup_userPaths (user : User) : (userPaths user).Nodup := by
  -- A user has the same few keys, with or without a password.
  refine (List.nodup_map_iff (dotted_injective _)).2 ?_
  rw [userKeys]
  cases user.hashedPassword.isSome <;> decide

/-- Users of different names share no path. -/
theorem disjoint_userPaths {first second : User}
    (firstNamed : ∀ c ∈ first.username.toList, Text.isNameChar c = true)
    (secondNamed : ∀ c ∈ second.username.toList, Text.isNameChar c = true)
    (different : first.username ≠ second.username) :
    (userPaths first).Disjoint (userPaths second) := by
  intro path inFirst inSecond
  obtain ⟨key, -, rfl⟩ := List.mem_map.1 inFirst
  obtain ⟨other, -, same⟩ := List.mem_map.1 inSecond
  -- No username has a point, so both end at the first point of what follows.
  have firstEnds : '.' ∉ first.username.toList := Text.not_mem_of_class firstNamed rfl
  have secondEnds : '.' ∉ second.username.toList := Text.not_mem_of_class secondNamed rfl
  have within (front back : List Char) : '.' ∈ dotted front back :=
    List.mem_append_right _ List.mem_cons_self
  rw [dotted, dotted, List.append_assoc, List.append_assoc] at same
  rcases dotted_eq_dotted (List.append_cancel_left same) with
    ⟨names, -⟩ | ⟨below, longer, -⟩ | ⟨below, longer, -⟩
  · exact different (String.toList_inj.1 names).symm
  · exact firstEnds (longer ▸ within _ _)
  · exact secondEnds (longer ▸ within _ _)

/-- The path of a user's setting leads through the users. -/
theorem begins_of_mem_userPaths {users : List User} {path : List Char}
    (within : path ∈ users.flatMap userPaths) : "users.".toList <+: path := by
  obtain ⟨user, -, isPath⟩ := List.mem_flatMap.1 within
  obtain ⟨key, -, rfl⟩ := List.mem_map.1 isPath
  -- Every path of a user stands below the fixed words.
  rw [dotted, List.append_assoc]
  exact List.IsPrefix.trans (by decide) (List.prefix_append "users.users.".toList _)

/-- The path of a shell's switch leads through the programs. -/
theorem begins_of_mem_programPaths {programs : List String} {path : List Char}
    (within : path ∈ programs.map programPath) : "programs.".toList <+: path := by
  obtain ⟨program, -, rfl⟩ := List.mem_map.1 within
  -- The path of a program begins with the fixed word.
  exact ⟨program.toList ++ ".enable".toList, (List.append_assoc _ _ _).symm⟩

/-- No path leads through two of the sets at the outside. -/
theorem not_begins_of_begins {path : List Char} (users : "users.".toList <+: path) :
    ¬ "programs.".toList <+: path := by
  obtain ⟨rest, rfl⟩ := users
  intro begins
  -- The two words differ in their first letter.
  simp at begins

/--
The paths of a machine and the list of its packages differ, and lead neither through users nor through
programs.

Only the layout of the keyboard leads through services.
-/
theorem nodup_machinePaths (system : System) :
    (machinePaths .builtin system ++ ["environment.systemPackages".toList]).Nodup ∧
      ∀ path ∈ machinePaths .builtin system ++ ["environment.systemPackages".toList],
        ¬ "users.".toList <+: path ∧ ¬ "programs.".toList <+: path ∧
          ("services.".toList <+: path → path = "services.xserver.xkb.layout".toList) := by
  have layout : Renames.builtin.optionPath "services.xserver.layout" =
      "services.xserver.xkb.layout" := rfl
  rw [machinePaths, layout]
  -- Two boot loaders with and without a swap file are all there is to look at.
  cases system.bootloader <;> by_cases none : system.swapSize = 0
  all_goals
    simp only [none, if_true, if_false, bootPaths]
    decide

/-- The settings are those of the machine and the list of packages, and those of users and programs. -/
theorem perm_settingPaths (model : Model) :
    (settingPaths .builtin model).Perm
      (machinePaths .builtin model.system ++ ["environment.systemPackages".toList] ++
        ((distinctUsers model.users).flatMap userPaths ++
          (shellPrograms (distinctUsers model.users)).map programPath)) := by
  -- The packages come last in the list and users before them, so two parts change their places.
  rw [settingPaths, List.append_assoc, List.append_assoc, List.append_assoc,
    ← List.append_assoc (List.flatMap _ _)]
  exact List.perm_append_comm.append_left _

/-- No two settings have one path, whoever the users are and whatever their shells. -/
theorem nodup_settingPaths {model : Model}
    (named : ∀ user ∈ model.users, ∀ c ∈ user.username.toList, Text.isNameChar c = true) :
    (settingPaths .builtin model).Nodup := by
  obtain ⟨within, distinct⟩ := distinctUsers_eq model.users
  obtain ⟨machine, apart⟩ := nodup_machinePaths model.system
  -- Each kind of paths is free of repetition, and the kinds begin differently.
  have users : ((distinctUsers model.users).flatMap userPaths).Nodup := by
    refine List.nodup_flatMap.2 ⟨fun user _ => nodup_userPaths user, ?_⟩
    exact distinct.imp_of_mem fun firstAmong secondAmong different =>
      disjoint_userPaths (named _ (within _ firstAmong)) (named _ (within _ secondAmong)) different
  have programs : ((shellPrograms (distinctUsers model.users)).map programPath).Nodup := by
    refine List.Nodup.map (fun first second same => ?_) (Table.nodup_keys _)
    exact String.toList_inj.1 (List.append_cancel_left (List.append_cancel_right same))
  refine (perm_settingPaths model).nodup_iff.2 (List.nodup_append'.2 ⟨machine,
    List.nodup_append'.2 ⟨users, programs, fun path isUser isProgram => ?_⟩,
    fun path isMachine isOther => ?_⟩)
  · exact not_begins_of_begins (begins_of_mem_userPaths isUser) (begins_of_mem_programPaths isProgram)
  · obtain ⟨noUser, noProgram, -⟩ := apart path isMachine
    rcases List.mem_append.1 isOther with isUser | isProgram
    · exact noUser (begins_of_mem_userPaths isUser)
    · exact noProgram (begins_of_mem_programPaths isProgram)

/-- The layout of the keyboard is always set, and through services nothing else is. -/
theorem mem_settingPaths_iff {model : Model} {path : List Char}
    (isService : "services.".toList <+: path) :
    path ∈ settingPaths .builtin model ↔ path = "services.xserver.xkb.layout".toList := by
  constructor
  · intro within
    obtain ⟨rest, rfl⟩ := isService
    rcases List.mem_append.1 ((perm_settingPaths model).mem_iff.1 within) with isMachine | isOther
    · exact ((nodup_machinePaths model.system).2 _ isMachine).2.2 (List.prefix_append _ rest)
    · rcases List.mem_append.1 isOther with isUser | isProgram
      -- The paths of users and programs begin with other letters.
      · have begins := begins_of_mem_userPaths isUser
        simp at begins
      · have begins := begins_of_mem_programPaths isProgram
        simp at begins
  · rintro rfl
    have layout : Renames.builtin.optionPath "services.xserver.layout" =
        "services.xserver.xkb.layout" := rfl
    have machine : "services.xserver.xkb.layout".toList ∈ machinePaths .builtin model.system := by
      rw [machinePaths, layout]
      exact List.mem_append_left _
        (List.mem_append_right _ (.tail _ (.tail _ (.tail _ (.tail _ (.head _))))))
    exact List.mem_append_left _ (List.mem_append_left _ (List.mem_append_left _ machine))

end Settings

/-- The services of a machine that are on. -/
def running (model : Model) : List Service :=
  model.system.services.filter (·.enabled)

/-- The names of a model have the shape of identifiers, and its services and options that of paths. -/
structure HasIdentifiers (model : Model) : Prop where
  users : ∀ user ∈ model.users, ∀ c ∈ user.username.toList, Text.isNameChar c = true
  programs : ∀ user ∈ model.users, ∀ program ∈ shellProgram? user.shell.toList,
    ∀ c ∈ program, Text.isNameChar c = true
  packages : ∀ package ∈ model.system.packages, ∀ c ∈ package.name.toList, isPackageChar c = true
  services : ∀ service ∈ model.system.services, IsPath service.name.toList ∧
    ∀ key ∈ service.options.keys, IsPath key.toList

/-- The current names in the built-in tables have only characters of package names. -/
theorem allCurrent_builtin_chars :
    Renames.builtin.AllCurrent fun text => ∀ c ∈ text, isPackageChar c = true := by
  -- The tables are closed terms, so all their names are looked at.
  have spelled {entries : List (String × String)}
      (all : entries.all fun entry => entry.2.toList.all isPackageChar) :
      ∀ entry ∈ entries, ∀ c ∈ entry.2.toList, isPackageChar c = true :=
    fun entry among => List.all_eq_true.1 (List.all_eq_true.1 all entry among)
  exact ⟨spelled (by decide), spelled (by decide), spelled (by decide)⟩

/-- The current name of a service is a path if its own name is one. -/
theorem isPath_builtin_service {name : String} (isPath : IsPath name.toList) :
    IsPath (Renames.builtin.service name).toList := by
  -- The new names of the table are paths, and a name outside of it stays.
  refine Renames.getD_get?_of_forall ?_ isPath name
  rw [Renames.entries_builtin_services]
  decide

/-- The current key of an option is a path if its own key is one. -/
theorem isPath_builtin_option {service key : String} (isPath : IsPath key.toList) :
    IsPath (Renames.builtin.option service key).toList := by
  -- Only the layout is renamed, to a closed text.
  by_cases layout : service ++ "." ++ key = "services.xserver.layout"
  · rcases Renames.eq_of_layoutPath layout with ⟨rfl, rfl⟩ | ⟨rfl, rfl⟩ <;> decide
  · rwa [Renames.builtin_option_of_ne layout]

/-- What has the shape of identifiers is written so under current names. -/
theorem HasIdentifiers.namesFit {model : Model} (shaped : HasIdentifiers model) :
    NamesFit .builtin model where
  layout := by decide
  users := shaped.users
  programs := shaped.programs
  packages := fun package among =>
    allCurrent_builtin_chars.package (fun _ _ within all c inPart => all c (within.subset inPart))
      (shaped.packages package among)
  services := fun service among => by
    -- Renaming leads from paths to paths, and the switch is a word of its own.
    obtain ⟨isPath, areKeys⟩ := shaped.services service (List.mem_of_mem_filter among)
    refine ⟨isPath_builtin_service isPath, List.forall_mem_cons.2 ⟨by decide, ?_⟩⟩
    exact List.forall_mem_map.2 fun key isKey => isPath_builtin_option (areKeys key isKey)

/--
The services that are on define each path once.

Nothing else can define a path twice.
-/
structure DefinesOnce (model : Model) : Prop where
  /-- No service is on under its former name and under its current one. -/
  current : ∀ former ∈ running model, ∀ service ∈ running model,
    (former.name, service.name) ∉ Renames.builtin.services.entries
  /-- No option of a service leads to the switch or to an option of another service. -/
  apart : ∀ outer ∈ running model, ∀ inner ∈ running model, ∀ below,
    Renames.builtin.service inner.name = Renames.builtin.service outer.name ++ "." ++ below →
      ∀ key ∈ enableOption :: inner.options.keys, below ++ "." ++ key ∉ outer.options.keys
  /-- Neither the switch nor an option of a service is one of the other settings. -/
  settings : ∀ service ∈ running model, ∀ path ∈ servicePaths .builtin service,
    path ∉ settingPaths .builtin model

section Services

variable {model : Model} {service : Service}

/-- A service that sets no setting has no option that has moved. -/
theorem option_eq_of_settings
    (settings : ∀ path ∈ servicePaths .builtin service, path ∉ settingPaths .builtin model)
    {key : String} (isKey : key ∈ service.options.keys) :
    Renames.builtin.option service.name key = key := by
  by_contra moved
  have layout : service.name ++ "." ++ key = "services.xserver.layout" := by
    by_contra other
    exact moved (Renames.builtin_option_of_ne other)
  -- The only option that has moved is written as the layout of the keyboard.
  have written : dotted (Renames.builtin.service service.name).toList
      (Renames.builtin.option service.name key).toList = "services.xserver.xkb.layout".toList := by
    rw [← toList_dotted, Renames.layoutPath_of_option layout]
  have among : dotted (Renames.builtin.service service.name).toList
      (Renames.builtin.option service.name key).toList ∈ servicePaths .builtin service :=
    List.mem_map_of_mem (List.mem_cons_of_mem _ (List.mem_map_of_mem isKey))
  rw [written] at among
  exact settings _ among ((mem_settingPaths_iff (by decide)).2 rfl)

/-- The keys of a service that sets no setting are its switch and the keys of its options. -/
theorem serviceKeys_of_settings
    (settings : ∀ path ∈ servicePaths .builtin service, path ∉ settingPaths .builtin model) :
    serviceKeys .builtin service = enableOption :: service.options.keys := by
  -- A renamed option would have a path of the settings, so each key stays.
  rw [serviceKeys, List.map_congr_left fun key isKey => option_eq_of_settings settings isKey,
    List.map_id']

/-- The paths of a service that sets no setting are those of its switch and of its options. -/
theorem mem_servicePaths_iff
    (settings : ∀ path ∈ servicePaths .builtin service, path ∉ settingPaths .builtin model)
    {path : List Char} : path ∈ servicePaths .builtin service ↔
      ∃ key ∈ enableOption :: service.options.keys,
        dotted (Renames.builtin.service service.name).toList key.toList = path := by
  -- The keys are those of the options, and the switch.
  rw [servicePaths, serviceKeys_of_settings settings, List.mem_map]

/-- A service that sets no setting, and whose switch is none of its options, has no path twice. -/
theorem nodup_servicePaths
    (settings : ∀ path ∈ servicePaths .builtin service, path ∉ settingPaths .builtin model)
    (switch : enableOption ∉ service.options.keys) : (servicePaths .builtin service).Nodup := by
  rw [servicePaths, serviceKeys_of_settings settings]
  refine List.Nodup.map (fun first second same => ?_)
    (List.nodup_cons.2 ⟨switch, Table.nodup_keys _⟩)
  -- Two keys below one service give two paths.
  exact String.toList_inj.1 (dotted_injective _ same)

/-- No key of a service leads to a key of a service below it. -/
theorem DefinesOnce.not_leads (once : DefinesOnce model) {outer inner : Service}
    (outerRuns : outer ∈ running model) (innerRuns : inner ∈ running model) {key other : String}
    {below : List Char} (isKey : key ∈ enableOption :: inner.options.keys)
    (isOther : other ∈ enableOption :: outer.options.keys)
    (longer : (Renames.builtin.service inner.name).toList =
      dotted (Renames.builtin.service outer.name).toList below) :
    other.toList ≠ dotted below key.toList := by
  intro rest
  -- One name would go on where the other one ends, as the fourth condition has it.
  have name : Renames.builtin.service inner.name =
      Renames.builtin.service outer.name ++ "." ++ String.ofList below :=
    String.toList_inj.1 (by rw [toList_dotted, String.toList_ofList, longer])
  have option : other = String.ofList below ++ "." ++ key :=
    String.toList_inj.1 (by rw [toList_dotted, String.toList_ofList, rest])
  rcases List.mem_cons.1 isOther with rfl | isOption
  · -- A key that leads below a service has a point, which the switch has not.
    have point : '.' ∈ enableOption.toList := by
      rw [rest]
      exact List.mem_append_right _ List.mem_cons_self
    exact absurd point (by decide)
  · exact once.apart outer outerRuns inner innerRuns _ name key isKey (option ▸ isOption)

/-- Two services that are on share no path if the services define each path once. -/
theorem DefinesOnce.disjoint (once : DefinesOnce model) {first second : Service}
    (firstRuns : first ∈ running model) (secondRuns : second ∈ running model)
    (different : first.name ≠ second.name) :
    (servicePaths .builtin first).Disjoint (servicePaths .builtin second) := by
  intro path inFirst inSecond
  obtain ⟨key, isKey, rfl⟩ := (mem_servicePaths_iff (once.settings first firstRuns)).1 inFirst
  obtain ⟨other, isOther, same⟩ := (mem_servicePaths_iff (once.settings second secondRuns)).1 inSecond
  -- Either both services have one current name, or one of them stands below the other.
  rcases dotted_eq_dotted same with ⟨names, -⟩ | ⟨below, longer, rest⟩ | ⟨below, longer, rest⟩
  · rcases Renames.builtin_service_eq_iff.1 (String.toList_inj.1 names) with
      same | former | former
    · exact different same.symm
    · exact once.current second secondRuns first firstRuns former
    · exact once.current first firstRuns second secondRuns former
  · exact once.not_leads secondRuns firstRuns isKey isOther longer rest
  · exact once.not_leads firstRuns secondRuns isOther isKey longer rest

/-- Settings and services define no path twice exactly if the services that are on define each path once. -/
theorem nodup_paths_iff (switches : ∀ service ∈ model.system.services,
      enableOption ∉ service.options.keys)
    (distinct : (model.system.services.map (·.name)).Nodup)
    (named : ∀ user ∈ model.users, ∀ c ∈ user.username.toList, Text.isNameChar c = true) :
    (settingPaths .builtin model ++ (running model).flatMap (servicePaths .builtin)).Nodup ↔
      DefinesOnce model := by
  rw [List.nodup_append', List.nodup_flatMap]
  constructor
  · rintro ⟨-, ⟨-, apart⟩, others⟩
    have settings : ∀ service ∈ running model, ∀ path ∈ servicePaths .builtin service,
        path ∉ settingPaths .builtin model := fun service runs path isPath isSetting =>
      others isSetting (List.mem_flatMap.2 ⟨service, runs, isPath⟩)
    -- Of any two services it does not matter which one comes first.
    have symmetric : Std.Symm (Function.onFun List.Disjoint (servicePaths .builtin)) :=
      ⟨fun _ _ => List.disjoint_symm⟩
    have disjoint {first second : Service} (firstRuns : first ∈ running model)
        (secondRuns : second ∈ running model) (different : first ≠ second) :
        (servicePaths .builtin first).Disjoint (servicePaths .builtin second) :=
      apart.forall firstRuns secondRuns different
    refine ⟨fun former formerRuns service runs moved => ?_, ?_, settings⟩
    · -- Both switches would be the one of the current name.
      have different : former ≠ service := by
        rintro rfl
        exact Renames.ne_of_mem_builtin_services moved rfl
      have names : Renames.builtin.service former.name = Renames.builtin.service service.name :=
        Renames.builtin_service_eq_iff.2 (.inr (.inl moved))
      have shared : dotted (Renames.builtin.service service.name).toList enableOption.toList ∈
          servicePaths .builtin former := names ▸ List.mem_cons_self
      exact disjoint formerRuns runs different shared List.mem_cons_self
    · intro outer outerRuns inner innerRuns below name key isKey isOption
      have different : inner ≠ outer := by
        rintro rfl
        have lengths := congrArg String.length name
        rw [String.length_append, String.length_append] at lengths
        have positive : 0 < ".".length := by decide
        omega
      have inInner := (mem_servicePaths_iff (settings inner innerRuns)).2 ⟨key, isKey, rfl⟩
      have inOuter := (mem_servicePaths_iff (settings outer outerRuns)).2
        ⟨_, List.mem_cons_of_mem _ isOption, rfl⟩
      -- The option of the outer service and the key of the inner one are one path.
      refine disjoint innerRuns outerRuns different inInner ?_
      rw [name, toList_dotted, dotted, dotted, List.append_assoc]
      rwa [toList_dotted, dotted, dotted] at inOuter
  · intro once
    -- The other way each group of paths is free of repetition, and the groups are disjoint.
    refine ⟨nodup_settingPaths named, ⟨fun service runs => ?_, ?_⟩, fun path isSetting isService => ?_⟩
    · exact nodup_servicePaths (once.settings service runs)
        (switches service (List.mem_of_mem_filter runs))
    · have names : (running model).Pairwise fun first second => first.name ≠ second.name :=
        (List.pairwise_map.1 distinct).filter _
      exact names.imp_of_mem fun firstRuns secondRuns different =>
        once.disjoint firstRuns secondRuns different
    · obtain ⟨service, runs, isPath⟩ := List.mem_flatMap.1 isService
      exact once.settings service runs path isPath isSetting

end Services

/-- The managed lines define the paths of the settings, and then those of the services that are on. -/
theorem definedPaths_regionLines {model : Model} (shaped : HasIdentifiers model) :
    definedPaths .top (said (regionLines .builtin model)) =
      settingPaths .builtin model ++ (running model).flatMap (servicePaths .builtin) := by
  -- What the region defines is known in front of any rest, so also in front of none.
  have defined := defines_regionLines shaped.namesFit []
  rwa [List.append_nil, definedPaths, List.append_nil] at defined

/-- The text of the file says what its managed lines say, if the texts of the model fit on lines. -/
theorem statements_text_builtin {model : Model} (fits : StringsFit model) :
    statements (text .builtin model) = said (regionLines .builtin model) :=
  -- The strings fit the lines, and the table gives current names only.
  statements_text (fits.linesFit allCurrent_builtin)

/--
The system file of a valid model defines no path twice exactly if the services that are on define each path
once.

What the managed lines define is what the text of the file defines, if the texts of the model fit on lines.
-/
theorem regionLines_define_once_iff {model : Model} (valid : model.validate = .ok ())
    (distinct : (model.system.services.map (·.name)).Nodup) (shaped : HasIdentifiers model) :
    ((definedPaths .top (said (regionLines .builtin model))).Nodup ↔ DefinesOnce model) ∧
      (StringsFit model → statements (text .builtin model) = said (regionLines .builtin model)) := by
  -- The paths of the region are known, and validity keeps the switch out of the options.
  have keeps := Model.validate_eq_ok_iff.1 valid
  rw [definedPaths_regionLines shaped]
  exact ⟨nodup_paths_iff keeps.switches distinct shaped.users, statements_text_builtin⟩

/-- The initial model with other services has names in order if the services have. -/
theorem hasIdentifiers_withServices {services : List Service}
    (shaped : ∀ service ∈ services, IsPath service.name.toList ∧
      ∀ key ∈ service.options.keys, IsPath key.toList) :
    HasIdentifiers (withServices .initial services) := by
  have name : ∀ c ∈ placeholderName.toList, Text.isNameChar c = true := List.all_eq_true.1 (by decide)
  have shell : ∀ program ∈ shellProgram? (User.named placeholderName).shell.toList,
      ∀ c ∈ program, Text.isNameChar c = true := by
    rintro _ ⟨⟩
    -- Besides the services, only the names of the initial model are written.
    exact List.all_eq_true.1 (by decide)
  have packages : System.initial.packages.all fun package => package.name.toList.all isPackageChar := by
    decide
  exact
    { users := List.forall_mem_singleton.2 name
      programs := List.forall_mem_singleton.2 shell
      packages := fun package among => List.all_eq_true.1 (List.all_eq_true.1 packages package among)
      services := shaped }

/-- A service with a single option. -/
def withOption (name key : String) (value : Literal) : Service :=
  { Service.named name with options := .ofList [(key, value)] }

/-- The texts of a service stand on lines of a region. -/
def TextsFit (service : Service) : Prop :=
  -- Names, keys and values are all written into lines.
  FitsLine service.name.toList ∧
    ∀ entry ∈ service.options.entries, FitsLine entry.1.toList ∧ LiteralFits entry.2

/-- The texts of the initial model with other services fit if those of the services do. -/
theorem stringsFit_withServices {services : List Service}
    (fits : ∀ service ∈ services, TextsFit service) : StringsFit (withServices .initial services) :=
  -- Only the services differ from the default model.
  { stringsFit_initial with services := fits }

/-- A service without options fits if its name does. -/
theorem textsFit_named {name : String} (named : IsPlain name.toList) : TextsFit (.named name) :=
  -- A service without options has only its name to fit.
  ⟨named.fits, List.forall_mem_nil _⟩

/-- A service with one option fits if its name, the key and the value do. -/
theorem textsFit_withOption {name key : String} {value : Literal} (named : IsPlain name.toList)
    (keyed : IsPlain key.toList) (fits : LiteralFits value) : TextsFit (withOption name key value) :=
  -- There is the name, the one key and its value.
  ⟨named.fits, List.forall_mem_singleton.2 ⟨keyed.fits, fits⟩⟩

/-- A machine with a service that has moved, and with one that has an option. -/
def quietModel : Model :=
  -- The option is no switch, and the new name of the moved service is its own.
  withServices .initial [withOption "services.openssh" "settings.PermitRootLogin" (.text "no"),
    .named "services.xserver.displayManager.gdm"]

/-- Every path of that machine is defined once. -/
theorem regionLines_define_once_quietModel :
    DefinesOnce quietModel ∧ (definedPaths .top (statements (text .builtin quietModel))).Nodup := by
  have valid : quietModel.validate = .ok () := by decide
  have distinct : (quietModel.system.services.map (·.name)).Nodup := by decide
  have shaped : HasIdentifiers quietModel := hasIdentifiers_withServices (by decide)
  have once : DefinesOnce quietModel := by
    refine ⟨?_, fun outer outerRuns inner innerRuns below name => ?_, by decide⟩
    · rw [Renames.entries_builtin_services]
      decide
    · -- Neither of the services stands below the other one.
      have outside : ∀ outer ∈ running quietModel, ∀ inner ∈ running quietModel,
          ¬ (Renames.builtin.service outer.name).toList ++ ['.'] <+:
            (Renames.builtin.service inner.name).toList := by
        decide
      refine absurd ⟨below.toList, ?_⟩ (outside outer outerRuns inner innerRuns)
      rw [name, toList_dotted, dotted, List.append_assoc]
      rfl
  have fits : StringsFit quietModel := stringsFit_withServices (List.forall_mem_cons.2
    ⟨textsFit_withOption (by decide) (by decide) (IsPlain.fits (by decide)),
      List.forall_mem_singleton.2 (textsFit_named (by decide))⟩)
  -- The condition is decided, and the theorem turns it into one about the paths.
  obtain ⟨exactly, said⟩ := regionLines_define_once_iff valid distinct shaped
  rw [said fits]
  exact ⟨once, exactly.2 once⟩

/-- A machine with a display manager under its former name and under its current one. -/
def movedModel : Model :=
  -- After renaming both services have one path.
  withServices .initial [
    .named "services.xserver.displayManager.gdm", .named "services.displayManager.gdm"]

/-- A machine with the layout of the keyboard among the options of a service. -/
def layoutModel : Model :=
  withServices .initial [withOption "services.xserver" "layout" (.text "de")]

/-- A machine with an option that switches another service. -/
def nestedModel : Model :=
  -- The option of the first service is the switch of the second.
  withServices .initial [
    withOption "services.xserver" "displayManager.lightdm.enable" (.bool true),
    .named "services.xserver.displayManager.lightdm"]

/-- A valid model with names in order, of which the file defines a path twice. -/
structure Clashes (model : Model) : Prop where
  valid : model.validate = .ok ()
  distinct : (model.system.services.map (·.name)).Nodup
  shaped : HasIdentifiers model
  twice : ¬ (definedPaths .top (statements (text .builtin model))).Nodup

/-- Services that do not define each path once clash in the text of the file. -/
theorem clashes_withServices {services : List Service}
    (valid : (withServices .initial services).validate = .ok ())
    (distinct : (services.map (·.name)).Nodup)
    (shaped : ∀ service ∈ services, IsPath service.name.toList ∧
      ∀ key ∈ service.options.keys, IsPath key.toList)
    (fits : ∀ service ∈ services, TextsFit service)
    (shared : ¬ DefinesOnce (withServices .initial services)) :
    Clashes (withServices .initial services) := by
  have identifiers := hasIdentifiers_withServices shaped
  -- The text says what the lines define, and these repeat a path.
  refine ⟨valid, distinct, identifiers, fun once => shared ?_⟩
  rw [statements_text_builtin (stringsFit_withServices fits),
    definedPaths_regionLines identifiers] at once
  exact (nodup_paths_iff (Model.validate_eq_ok_iff.1 valid).switches distinct identifiers.users).1 once

/-- Services that have moved, that set what is set already, and that lead into others clash. -/
theorem clashes_movedModel : Clashes movedModel ∧ Clashes layoutModel ∧ Clashes nestedModel := by
  refine ⟨clashes_withServices (by decide) (by decide) (by decide) ?_ fun once => ?_,
    clashes_withServices (by decide) (by decide) (by decide) ?_ fun once => ?_,
    clashes_withServices (by decide) (by decide) (by decide) ?_ fun once => ?_⟩
  · exact List.forall_mem_cons.2 ⟨textsFit_named (by decide),
      List.forall_mem_singleton.2 (textsFit_named (by decide))⟩
  · -- A moved name and its current one are both on.
    refine once.current _ (.head _) _ (.tail _ (.head _)) ?_
    rw [Renames.entries_builtin_services]
    decide
  · exact List.forall_mem_singleton.2
      (textsFit_withOption (by decide) (by decide) (IsPlain.fits (by decide)))
  · -- The layout is set by an option and by the machine.
    refine once.settings _ (.head _) "services.xserver.xkb.layout".toList (by decide) ?_
    exact (mem_settingPaths_iff (by decide)).2 rfl
  · exact List.forall_mem_cons.2 ⟨textsFit_withOption (by decide) (by decide) trivial,
      List.forall_mem_singleton.2 (textsFit_named (by decide))⟩
  · -- The option of one service leads to the switch of another one.
    exact once.apart _ (.head _) _ (.tail _ (.head _)) "displayManager.lightdm" (by decide)
      enableOption List.mem_cons_self (by decide)

end NixKeeper.Files.SystemFile
