import NixKeeper.Proofs.Files.SystemFile.Reading

/-!
The paths that the system file defines, line by line.

A line outside of sets and lists defines a path, and one in the set of a user or a service defines a key
below the path of the set. The lines of a list define nothing.
-/

namespace NixKeeper.Files.SystemFile

/-- What a line assigns to, and what stands behind the equals sign. -/
def assignment? (raw : List Char) : Option (List Char × List Char) := do
  -- The path is all that can be taken, and blanks are allowed around the equals sign.
  let path := raw.takeWhile Text.isPathChar
  if path.isEmpty then none
  let rest ← ['='].isPrefixOf? (Text.trimStart (raw.dropWhile Text.isPathChar))
  return (path, Text.trimStart rest)

/-- Where a line stands. -/
inductive Place where
  | top
  /-- Between the braces behind a path. -/
  | set (path : List Char)
  | list

/-- A path that leads to a key below another path. -/
def dotted (path key : List Char) : List Char :=
  path ++ '.' :: key

/-- The paths that a line defines where it stands, and where the next line stands. -/
def definedBy : Place → List Char → List (List Char) × Place
  | .top, raw =>
    match assignment? raw with
    | none => ([], .top)
    | some (path, value) =>
      if value = ['{'] then ([], .set path)
      -- A statement that does not end on its line goes on with the lines of a list.
      else ([path], if raw.getLast? = some ';' then .top else .list)
  | .set path, raw =>
    if raw.head? = some '}' then ([], .top)
    else ((assignment? raw).toList.map fun assigned => dotted path assigned.1, .set path)
  | .list, raw => ([], if raw.head?.any fun c => c == ']' || c == '}' then .top else .list)

/-- The paths that statements define, the first of which stands in a given place. -/
def definedPaths : Place → List Statement → List (List Char)
  | _, [] => []
  -- The place behind a line is where the next one stands.
  | place, statement :: rest =>
    (definedBy place statement.raw).1 ++ definedPaths (definedBy place statement.raw).2 rest

/-- A statement defines paths where it stands, and moves the next one to its place. -/
theorem definedPaths_of_definedBy {place next : Place} {statement : Statement}
    {paths : List (List Char)} (rest : List Statement)
    (moves : definedBy place statement.raw = (paths, next)) :
    definedPaths place (statement :: rest) = paths ++ definedPaths next rest := by
  -- One step of the definition.
  rw [definedPaths, moves]

/-- Lines that define some paths and end where they begin. -/
def Defines (place : Place) (lines : List Line) (paths : List (List Char)) : Prop :=
  ∀ rest, definedPaths place (said lines ++ rest) = paths ++ definedPaths place rest

variable {place : Place} {lines others : List Line} {paths more : List (List Char)}

/-- Joined lines define what each part of them defines. -/
theorem Defines.append (first : Defines place lines paths) (second : Defines place others more) :
    Defines place (lines ++ others) (paths ++ more) := by
  -- The paths of the first part come first, whatever follows it.
  intro rest
  rw [said_append, List.append_assoc, first, second, List.append_assoc]

/-- No lines define nothing. -/
theorem defines_nil : Defines place [] [] :=
  -- No lines define nothing.
  fun _ => rfl

/-- An empty line defines nothing. -/
theorem defines_blank : Defines place blank [] :=
  -- An empty line says nothing.
  fun _ => rfl

/-- The depth of lines does not matter for what they define. -/
theorem Defines.indent (defines : Defines place lines paths) :
    Defines place (Files.indent lines) paths := by
  -- Indentation is trimmed off before a line is read.
  intro rest
  rw [said_indent, defines]

/-- Lines written for several items define what those for each item do. -/
theorem defines_flatMap {α : Type} {items : List α} {written : α → List Line}
    {defined : α → List (List Char)}
    (each : ∀ item ∈ items, Defines place (written item) (defined item)) :
    Defines place (items.flatMap written) (items.flatMap defined) := by
  induction items with
  | nil => exact defines_nil
  | cons item rest ih =>
    -- One item after another, each in the place where the one before it ended.
    obtain ⟨here, later⟩ := List.forall_mem_cons.1 each
    exact here.append (ih later)

/-- A statement that stays in its place defines what its line does. -/
theorem defines_of_said {statement : Statement} (single : said lines = [statement])
    (stays : definedBy place statement.raw = (paths, place)) : Defines place lines paths := by
  -- The lines say one statement, which is one step.
  intro rest
  rw [single, List.cons_append, List.nil_append, definedPaths_of_definedBy _ stays]

/-- What a path is assigned to is read from the line. -/
theorem assignment?_assignment {path : List Char} (value : List Char) (isPath : IsPath path) :
    assignment? (assignment path value) = some (path, Text.trimStart value) := by
  -- The path ends at the blank before the equals sign.
  have behind : Text.trimStart (" = ".toList ++ value) = '=' :: ' ' :: value := rfl
  have found : ['='].isPrefixOf? ('=' :: ' ' :: value) = some (' ' :: value) := rfl
  have present : path.isEmpty = false := by simpa using isPath.nonempty
  rw [assignment?, takeWhile_assignment value isPath.onPath (by decide),
    dropWhile_assignment value isPath.onPath (by decide), behind, found]
  simp only [present, Bool.false_eq_true, if_false, Option.bind_eq_bind, Option.bind_some]
  rfl

/-- An assignment is one line, whatever its value is. -/
theorem exists_said_assign {path : List Char} (value : List Char) (begins : BeginsOnPath path) :
    ∃ clean, said (assign path value) = [⟨assignment path (value ++ [';']), clean⟩] := by
  have whole : BeginsOnPath (assignment path (value ++ [';'])) := by
    rw [assignment, List.append_assoc]
    exact begins.append _
  -- The line ends with its semicolon, so it is a statement whatever the value is.
  have last : (assignment path (value ++ [';'])).getLast? = some ';' := by
    rw [getLast?_assignment _ (by simp), List.getLast?_concat]
  have shape : assign path value = line (assignment path (value ++ [';'])) := by
    simp [assign, assignment]
  rw [shape, said_line, statement?_of_begins whole (Text.forall_getLast?_of_eq last rfl)]
  exact ⟨_, rfl⟩

/-- The paths that an assignment defines in a place. -/
def Place.defined : Place → List Char → List (List Char)
  -- Inside a set a key is below the path of the set, and items of a list define nothing.
  | .top, path => [path]
  | .set path, key => [dotted path key]
  | .list, _ => []

/-- An assignment defines its path, whatever its value is. -/
theorem defines_assign {path : List Char} (value : List Char) (isPath : IsPath path) :
    Defines place (assign path value) (place.defined path) := by
  obtain ⟨clean, single⟩ := exists_said_assign value isPath.begins
  refine defines_of_said single ?_
  have read := assignment?_assignment (value ++ [';']) isPath
  obtain ⟨c, path, rfl⟩ := List.exists_cons_of_ne_nil isPath.nonempty
  have onPath := isPath.onPath c List.mem_cons_self
  have head : (assignment (c :: path) (value ++ [';'])).head? = some c := rfl
  dsimp only
  cases place with
  | top =>
    -- The semicolon stays, so the value is more than an opening brace.
    have within : ';' ∈ Text.trimStart (value ++ [';']) :=
      Text.mem_dropWhile_of_mem (by simp) rfl
    have noBrace : Text.trimStart (value ++ [';']) ≠ ['{'] := by
      intro same
      rw [same] at within
      exact absurd within (by decide)
    have last : (assignment (c :: path) (value ++ [';'])).getLast? = some ';' := by
      rw [getLast?_assignment _ (by simp), List.getLast?_concat]
    rw [definedBy, read]
    dsimp only
    rw [if_neg noBrace, if_pos last]
    rfl
  | set outer =>
    -- A path begins with no closing brace, so the line does not end the set.
    have other : some c ≠ some '}' := fun same =>
      Text.ne_of_class onPath rfl (Option.some.inj same)
    rw [definedBy, head, if_neg other, read]
    rfl
  | list =>
    have noBracket : (c == ']' || c == '}') = false := by
      rw [Bool.or_eq_false_iff, beq_eq_false_iff_ne, beq_eq_false_iff_ne]
      exact ⟨Text.ne_of_class onPath rfl, Text.ne_of_class onPath rfl⟩
    rw [definedBy, head, Option.any_some, noBracket]
    rfl

/-- An assignment of a quoted text defines its path. -/
theorem defines_assignText {path : List Char} (value : List Char) (isPath : IsPath path) :
    Defines place (assignText path value) (place.defined path) :=
  -- A quoted value is a value.
  defines_assign _ isPath

/-- Switching a path on defines it. -/
theorem defines_switchOn {path : List Char} (isPath : IsPath path) :
    Defines place (switchOn path) (place.defined path) :=
  -- Switching on assigns a value.
  defines_assign _ isPath

/-- A set defines what its lines define below its path. -/
theorem defines_set {path : List Char} (isPath : IsPath path)
    (inside : Defines (.set path) lines paths) :
    Defines .top (block (path ++ " = \x7b".toList) lines "\x7d;".toList) paths := by
  -- The opening line moves into the set, and the closing one out of it again.
  intro rest
  have opened : definedBy .top (assignment path "\x7b".toList) = ([], .set path) := by
    rw [definedBy, assignment?_assignment _ isPath]
    rfl
  have closed : definedPaths (.set path) (said (line "\x7d;".toList) ++ rest) =
      definedPaths .top rest := rfl
  rw [block, said_append, said_append, said_opening isPath.begins, List.append_assoc,
    List.append_assoc, List.cons_append, List.nil_append, definedPaths_of_definedBy _ opened,
    inside.indent, closed, List.nil_append]

/-- A list defines its path, and nothing inside. -/
theorem defines_list {opening closing path : List Char} {first last : Statement}
    (opens : said (line opening) = [first]) (opened : definedBy .top first.raw = ([path], .list))
    (closes : said (line closing) = [last]) (closed : definedBy .list last.raw = ([], .top))
    (inside : Defines .list lines []) :
    Defines .top (block opening lines closing) [path] := by
  intro rest
  -- The bracket leads back to the top, where the rest is read.
  have behind : definedPaths .list ([last] ++ rest) = definedPaths .top rest :=
    definedPaths_of_definedBy rest closed
  rw [block, said_append, said_append, opens, closes, List.append_assoc, List.append_assoc,
    List.cons_append, List.nil_append, definedPaths_of_definedBy _ opened, inside.indent,
    List.nil_append, behind]

/-- A line of a list that begins with no closing bracket defines nothing. -/
theorem defines_listed {text : List Char}
    (begins : ∀ c ∈ text.head?, Text.isBlank c = false ∧ c ≠ ']' ∧ c ≠ '}') :
    Defines .list (line text) [] := by
  intro rest
  -- Whatever is trimmed at the end, the line begins with the same character.
  have stays : definedBy .list (Text.trim text) = ([], .list) := by
    have kept : Text.trimStart text = text :=
      Text.trimStart_eq_self_iff.2 fun c isFirst => (begins c isFirst).1
    obtain ⟨ending, whole, -⟩ := Text.exists_dropEndWhile_append Text.isBlank text
    rw [definedBy, Text.trim, kept, Text.trimEnd]
    cases shown : Text.dropEndWhile Text.isBlank text with
    | nil => rfl
    | cons c more =>
      rw [shown, List.cons_append] at whole
      obtain ⟨-, noBracket, noBrace⟩ := begins c (by rw [whole]; rfl)
      have other : (c == ']' || c == '}') = false := by
        rw [Bool.or_eq_false_iff, beq_eq_false_iff_ne, beq_eq_false_iff_ne]
        exact ⟨noBracket, noBrace⟩
      rw [List.head?_cons, Option.any_some, other]
      rfl
  rw [said_line, statement?]
  split
  · rw [Option.toList_some, List.cons_append, List.nil_append, definedPaths_of_definedBy _ stays]
  · rfl

variable {renames : Renames}

/-- The paths of a boot loader. -/
def bootPaths : Bootloader → List (List Char)
  -- Only one of the two loaders is told the device.
  | .systemdBoot => ["boot.loader.systemd-boot.enable".toList]
  | .grub => ["boot.loader.grub.enable".toList, "boot.loader.grub.device".toList]

/-- The paths of the settings of a machine. -/
def machinePaths (renames : Renames) (system : System) : List (List Char) :=
  -- The swap file is written only where it has a size.
  "imports".toList :: bootPaths system.bootloader ++
    ["boot.loader.efi.canTouchEfiVariables".toList, "networking.hostName".toList,
      "time.timeZone".toList, "i18n.defaultLocale".toList,
      (renames.optionPath "services.xserver.layout").toList,
      "nix.settings.experimental-features".toList, "nixpkgs.config.allowUnfree".toList] ++
    if system.swapSize = 0 then [] else ["swapDevices".toList]

/-- The keys of a user's settings. -/
def userKeys (user : User) : List (List Char) :=
  -- A password is written only where there is one.
  ["isNormalUser".toList, "description".toList, "extraGroups".toList, "shell".toList] ++
    if user.hashedPassword.isSome then ["hashedPassword".toList] else []

/-- The paths of a user's settings. -/
def userPaths (user : User) : List (List Char) :=
  (userKeys user).map (dotted ("users.users.".toList ++ user.username.toList))

/-- The path that switches the program of a shell on. -/
def programPath (program : String) : List Char :=
  "programs.".toList ++ program.toList ++ ".enable".toList

/-- The paths of everything but services. -/
def settingPaths (renames : Renames) (model : Model) : List (List Char) :=
  -- The packages come last, behind the shells.
  machinePaths renames model.system ++ (distinctUsers model.users).flatMap userPaths ++
    (shellPrograms (distinctUsers model.users)).map programPath ++
    ["environment.systemPackages".toList]

/-- The keys of a service that are written, under their current names: the switch and the options. -/
def serviceKeys (renames : Renames) (service : Service) : List String :=
  enableOption :: service.options.keys.map (renames.option service.name)

/-- The paths of a service that is on. -/
def servicePaths (renames : Renames) (service : Service) : List (List Char) :=
  -- The keys stand below the current name of the service.
  (serviceKeys renames service).map fun key =>
    dotted (renames.service service.name).toList key.toList

/-- The names that are written are names, and the paths are paths. -/
structure NamesFit (renames : Renames) (model : Model) : Prop where
  layout : IsPath (renames.optionPath "services.xserver.layout").toList
  users : ∀ user ∈ model.users, ∀ c ∈ user.username.toList, Text.isNameChar c = true
  programs : ∀ user ∈ model.users, ∀ program ∈ shellProgram? user.shell.toList,
    ∀ c ∈ program, Text.isNameChar c = true
  packages : ∀ package ∈ model.system.packages,
    ∀ c ∈ (renames.package package.name).toList, isPackageChar c = true
  services : ∀ service ∈ model.system.services.filter (·.enabled),
    IsPath (renames.service service.name).toList ∧
      ∀ key ∈ serviceKeys renames service, IsPath key.toList

/-- A line of a list that begins with a character of a path defines nothing. -/
theorem defines_listed_of_begins {text : List Char} (begins : BeginsOnPath text) :
    Defines .list (line text) [] := by
  obtain ⟨c, isFirst, onPath⟩ := begins
  -- The text's first character is on a path, so it is none of the signs that matter in a list.
  refine defines_listed fun other same => ?_
  obtain rfl := Option.some.inj (isFirst.symm.trans same)
  exact ⟨Text.isBlank_of_isPathChar onPath, Text.ne_of_class onPath rfl, Text.ne_of_class onPath rfl⟩

/-- The imports are defined. -/
theorem defines_importLines (system : System) :
    Defines .top (importLines system) ["imports".toList] := by
  have hardware : BeginsOnPath "./hardware-configuration.nix".toList := ⟨'.', rfl, rfl⟩
  -- The files in the brackets are no assignments.
  refine defines_list rfl rfl rfl rfl ((defines_listed_of_begins hardware).append ?_)
  cases system.hardwarePreset with
  | none => exact defines_nil
  | some preset => exact defines_listed_of_begins ⟨'i', rfl, rfl⟩

/-- The settings of a boot loader are defined. -/
theorem defines_bootLines (loader : Bootloader) :
    Defines .top (bootLines loader) (bootPaths loader) := by
  cases loader with
  | systemdBoot => exact defines_switchOn (by decide)
  -- The second loader is switched on and given a device.
  | grub => exact (defines_switchOn (by decide)).append (defines_assignText _ (by decide))

/-- The settings of the place are defined, the layout under its current path. -/
theorem defines_placeLines (system : System)
    (layout : IsPath (renames.optionPath "services.xserver.layout").toList) :
    Defines .top (placeLines renames system)
      ["networking.hostName".toList, "time.timeZone".toList, "i18n.defaultLocale".toList,
        (renames.optionPath "services.xserver.layout").toList] :=
  -- Four lines, and only the layout's path depends on the table.
  (((defines_assignText _ (by decide)).append (defines_assignText _ (by decide))).append
    (defines_assignText _ (by decide))).append (defines_assignText _ layout)

/-- A swap file defines its list. -/
theorem defines_swapLines (size : UInt32) :
    Defines .top (swapLines size) (if size = 0 then [] else ["swapDevices".toList]) := by
  rw [swapLines]
  split
  · exact defines_nil
  · -- Lines inside of a list define nothing.
    have device : Defines .list (assignText "device".toList "/var/lib/swapfile".toList) [] :=
      defines_assignText _ (by decide)
    have space : Defines .list (assign "size".toList (Decimal.ofNat (size.toNat * 1024))) [] :=
      defines_assign _ (by decide)
    exact defines_blank.append (defines_list rfl rfl rfl rfl (device.append space))

/-- A user's settings are defined below the user. -/
theorem defines_userLines {user : User}
    (named : ∀ c ∈ user.username.toList, Text.isNameChar c = true) :
    Defines .top (userLines user) (userPaths user) := by
  -- The path of a user is made of name characters and points.
  have path : IsPath ("users.users.".toList ++ user.username.toList) := by
    refine IsPath.append (by decide) fun c within => ?_
    rw [Text.isPathChar, named c within, Bool.true_or]
  rw [userPaths, userKeys, List.map_append]
  refine defines_set path (Defines.append ?_ ?_)
  · exact (((defines_switchOn (by decide)).append (defines_assignText _ (by decide))).append
      (defines_assign _ (by decide))).append (defines_assign _ (by decide))
  · cases user.hashedPassword with
    | none => exact defines_nil
    | some password => exact defines_assignText _ (by decide)

/-- The programs of shells are defined by their switches. -/
theorem defines_shellLines {users : List User}
    (named : ∀ user ∈ users, ∀ program ∈ shellProgram? user.shell.toList,
      ∀ c ∈ program, Text.isNameChar c = true) :
    Defines .top (shellLines users) ((shellPrograms users).map programPath) := by
  -- A program is a part of the shell's expression, so it has the characters of a name.
  have each : ∀ program ∈ shellPrograms users,
      Defines .top (switchOn ("programs.".toList ++ program.toList ++ ".enable".toList))
        [programPath program] := by
    intro program among
    obtain ⟨user, isUser, names⟩ := shellProgram?_of_mem among
    have switch : IsPath ".enable".toList := by decide
    refine defines_switchOn (IsPath.append (IsPath.append (by decide) fun c within => ?_) switch.onPath)
    rw [Text.isPathChar, named user isUser _ names c within, Bool.true_or]
  rw [shellLines]
  split
  · rename_i none
    rw [none]
    exact defines_nil
  · rw [List.map_eq_flatMap]
    exact defines_blank.append (defines_flatMap each)

/-- The list of packages is defined. -/
theorem defines_packageLines {packages : List Package}
    (named : ∀ package ∈ packages,
      ∀ c ∈ (renames.package package.name).toList, isPackageChar c = true) :
    Defines .top (packageLines renames packages) ["environment.systemPackages".toList] := by
  -- A name of a package closes no list, so it defines nothing.
  have each : ∀ package ∈ packages,
      Defines .list (line (renames.package package.name).toList) [] := by
    intro package among
    refine defines_listed fun c isFirst => ?_
    have member := named package among c (List.mem_of_mem_head? isFirst)
    exact ⟨isBlank_of_isPackageChar member, Text.ne_of_class member rfl, Text.ne_of_class member rfl⟩
  have inside := defines_flatMap each
  rw [List.flatMap_eq_nil_iff.2 fun _ _ => rfl] at inside
  exact defines_list rfl rfl rfl rfl inside

/-- A service that is on is defined by its switch and its options. -/
theorem defines_serviceLines {service : Service}
    (isPath : IsPath (renames.service service.name).toList)
    (areKeys : ∀ key ∈ serviceKeys renames service, IsPath key.toList) :
    Defines .top (serviceLines renames service) (servicePaths renames service) := by
  obtain ⟨-, areOptions⟩ := List.forall_mem_cons.1 areKeys
  rw [serviceLines]
  split
  -- A block would hold a single line if there are no options, so the path is switched on directly.
  · rename_i none
    have single : servicePaths renames service =
        [(renames.service service.name).toList ++ ".enable".toList] := by
      rw [servicePaths, serviceKeys, Table.keys, List.isEmpty_iff.1 none]
      rfl
    rw [single]
    have switch : IsPath ".enable".toList := by decide
    exact defines_switchOn (isPath.append switch.onPath)
  · have options := @defines_flatMap (.set (renames.service service.name).toList) _
      service.options.entries (optionLine renames service.name)
      (fun entry => [dotted (renames.service service.name).toList
        (renames.option service.name entry.1).toList])
      fun entry isOption => defines_assign _
        (areOptions _ (List.mem_map_of_mem (List.mem_map_of_mem isOption)))
    have paths : servicePaths renames service =
        [dotted (renames.service service.name).toList enableOption.toList] ++
          service.options.entries.flatMap fun entry =>
            [dotted (renames.service service.name).toList
              (renames.option service.name entry.1).toList] := by
      rw [servicePaths, serviceKeys, Table.keys, List.map_cons, List.map_map, List.map_map,
        ← List.map_eq_flatMap]
      rfl
    rw [paths]
    exact defines_set isPath ((defines_switchOn (by decide)).append options)

/-- The managed lines define the paths of the settings, and then those of the services that are on. -/
theorem defines_regionLines {model : Model} (fits : NamesFit renames model) :
    Defines .top (regionLines renames model) (settingPaths renames model ++
      (model.system.services.filter (·.enabled)).flatMap (servicePaths renames)) := by
  obtain ⟨within, -⟩ := distinctUsers_eq model.users
  have users : Defines .top ((distinctUsers model.users).flatMap fun user => blank ++ userLines user)
      ((distinctUsers model.users).flatMap userPaths) :=
    defines_flatMap fun user among =>
      defines_blank.append (defines_userLines (fits.users user (within user among)))
  have shells := defines_shellLines fun user among => fits.programs user (within user among)
  have services := @defines_flatMap .top _ (model.system.services.filter (·.enabled))
    (fun service => blank ++ serviceLines renames service) (servicePaths renames)
    fun service among => defines_blank.append (defines_serviceLines (fits.services service among).1
      (fits.services service among).2)
  have efi : IsPath "boot.loader.efi.canTouchEfiVariables".toList := by decide
  have features : IsPath "nix.settings.experimental-features".toList := by decide
  have unfree : IsPath "nixpkgs.config.allowUnfree".toList := by decide
  -- The groups of lines stand one behind the other, most of them behind an empty line.
  have boot := (((defines_importLines model.system).append defines_blank).append
    (defines_bootLines model.system.bootloader)).append (defines_switchOn efi)
  have place := ((boot.append defines_blank).append (defines_placeLines model.system fits.layout)).append
    defines_blank
  have machine := ((place.append
    (defines_assign (Nix.formatList model.system.experimentalFeatures) features)).append
      (defines_switchOn unfree)).append (defines_swapLines model.system.swapSize)
  have whole := ((((machine.append users).append shells).append defines_blank).append
    (defines_packageLines fits.packages)).append services
  simp only [Place.defined, List.append_nil, List.append_assoc, List.cons_append, List.nil_append]
    at whole
  simp only [regionLines, settingPaths, machinePaths, List.append_assoc, List.cons_append,
    List.nil_append]
  exact whole

end NixKeeper.Files.SystemFile
