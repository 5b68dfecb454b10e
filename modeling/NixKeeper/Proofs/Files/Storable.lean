import NixKeeper.Proofs.Files.Generated
import NixKeeper.Proofs.Files.Manifest
import NixKeeper.Proofs.Files.Soundness
import NixKeeper.Proofs.Model.Reproduction

/-!
What is read from files can be saved, as far as a snapshot can hold it.

Files can say more than a snapshot holds: an identity or a password that is empty, and a number that
is not finite. Nothing else that they say gets lost.
-/

namespace NixKeeper.Files

variable {renames : Renames} {placeholder : String} {path : Path}

namespace SystemFile

/-- A statement of the system file says nothing that a snapshot would not hold. -/
def SaysStorable (statement : Statement) : Prop :=
  -- The two values that cannot be stored are an empty password and a number that is not finite.
  password? statement.clean ≠ some "" ∧
    ∀ setting ∈ option? statement.clean, ∀ literal ∈ Nix.parse? setting.2, literal.isFinite = true

instance : DecidablePred SaysStorable := fun _ => inferInstanceAs (Decidable (_ ∧ _))

/-- No statement leaves an optional text about the machine empty. -/
theorem noneEmpty_of_change {now next : Progress} {statement : Statement}
    (change : Change renames placeholder now statement next.model next.seen)
    (noneEmpty : now.model.system.NoneEmpty) : next.model.system.NoneEmpty := by
  obtain ⟨model, context, seen⟩ := next
  cases change with
  | settings system packages services hardware preset =>
    -- A hardware module is never named by an empty text.
    refine ⟨?_, hardware ▸ noneEmpty.2⟩
    rcases preset with same | ⟨name, named, given⟩
    · exact same ▸ noneEmpty.1
    · intro empty
      exact named (Option.some.inj (given.symm.trans empty))
  | packages | user | userLine | service | serviceSwitch | serviceLine => exact noneEmpty

/-- A storable line of a user's block leaves no optional text empty. -/
theorem noneEmpty_readUserLine {statement : Statement} (plain : SaysStorable statement) {user : User}
    (noneEmpty : user.NoneEmpty) : (readUserLine statement.clean user).NoneEmpty := by
  obtain ⟨gitName, gitEmail, password⟩ := noneEmpty
  unfold readUserLine
  split
  · exact ⟨gitName, gitEmail, password⟩
  · split
    · -- Of the optional texts such a line sets only the password.
      rename_i given
      exact ⟨gitName, gitEmail, given ▸ plain.1⟩
    · split
      · exact ⟨gitName, gitEmail, password⟩
      · split <;> exact ⟨gitName, gitEmail, password⟩

/-- A storable line of a service's block leaves every option finite. -/
theorem isFinite_readServiceLine {statement : Statement} (plain : SaysStorable statement)
    {service : Service} (finite : service.IsFinite) :
    (readServiceLine statement.clean service).IsFinite := by
  unfold readServiceLine
  split
  · exact finite
  · rename_i key value setting
    split
    · exact finite
    · split
      · -- The option that is set is what the line says, and all others are kept.
        rename_i literal read
        intro entry within
        rcases Table.eq_or_mem_of_mem_place within with rfl | before
        · exact plain.2 (key, value) setting literal read
        · exact finite entry before
      · exact finite

/-- A storable statement leaves a storable model storable. -/
theorem storable_of_change {now next : Progress} {statement : Statement}
    (plain : SaysStorable statement)
    (change : Change renames placeholder now statement next.model next.seen)
    (storable : now.model.Storable) : next.model.Storable := by
  have system := noneEmpty_of_change change storable.system
  obtain ⟨model, context, seen⟩ := next
  have claimed (name : String) :
      ∀ service ∈ (claimService now.model.system.services name).2, service.IsFinite :=
    forall_mem_claimService storable.finite (List.forall_mem_nil _)
  -- Only the lines of blocks can set an option or an optional text.
  cases change with
  | settings settings packages services =>
    exact ⟨system, storable.users, services ▸ storable.finite⟩
  | packages text => exact ⟨system, storable.users, storable.finite⟩
  | user name =>
    refine ⟨system, ?_, storable.finite⟩
    exact forall_mem_claimUser storable.users ⟨nofun, nofun, nofun⟩ storable.users
  | userLine index =>
    refine ⟨system, ?_, storable.finite⟩
    exact forall_mem_modify storable.users index fun _ => noneEmpty_readUserLine plain
  | service name => exact ⟨system, storable.users, claimed name⟩
  | serviceSwitch name =>
    refine ⟨system, storable.users, ?_⟩
    exact forall_mem_modify (claimed name) _ fun _ finite => finite
  | serviceLine index =>
    refine ⟨system, storable.users, ?_⟩
    exact forall_mem_modify storable.finite index fun _ => isFinite_readServiceLine plain

/-- No system file leaves an optional text about the machine empty. -/
theorem noneEmpty_read (text : List Char) {model : Model} (noneEmpty : model.system.NoneEmpty) :
    (read renames placeholder text model).system.NoneEmpty :=
  -- Every statement makes one change, and none of them writes an empty optional field.
  @model_foldl_of_change renames placeholder (·.system.NoneEmpty) _
    (fun _ _ _ _ => noneEmpty_of_change) ⟨model, .top, []⟩ noneEmpty

/-- A system file of storable statements leaves a storable model storable. -/
theorem storable_read {text : List Char} (plain : ∀ statement ∈ statements text, SaysStorable statement)
    {model : Model} (storable : model.Storable) :
    (read renames placeholder text model).Storable :=
  -- Every statement makes one change, and each of those that stand in the text can be stored.
  @model_foldl_of_change renames placeholder Model.Storable _
    (fun statement among _ _ => storable_of_change (plain statement among)) ⟨model, .top, []⟩ storable

end SystemFile

namespace Home

/-- A statement of a home says nothing that a snapshot would not hold. -/
def SaysStorable (statement : Statement) : Prop :=
  ∀ path ∈ namePaths ++ emailPaths, assignedText? path statement.clean ≠ some ""

instance : DecidablePred SaysStorable := fun _ =>
  inferInstanceAs (Decidable (∀ path ∈ namePaths ++ emailPaths, _))

/-- A storable statement leaves no optional text of the user empty. -/
theorem Change.noneEmpty {statement : Statement} {user next : User} (plain : SaysStorable statement)
    (change : Change renames statement user next) (noneEmpty : user.NoneEmpty) : next.NoneEmpty := by
  obtain ⟨gitName, gitEmail, password⟩ := noneEmpty
  -- The name and the address are the texts that a statement can set.
  cases change with
  | name path among name assigned =>
    have told := plain path (List.mem_append_left _ among)
    exact ⟨assigned ▸ told, gitEmail, password⟩
  | email path among email assigned =>
    have told := plain path (List.mem_append_right _ among)
    exact ⟨gitName, assigned ▸ told, password⟩
  | packages | shell => exact ⟨gitName, gitEmail, password⟩

/-- A home of storable statements leaves no optional text of the user empty. -/
theorem noneEmpty_readUser {text : List Char}
    (plain : ∀ statement ∈ statements text, SaysStorable statement) {user : User}
    (noneEmpty : user.NoneEmpty) : (readUser renames text user).NoneEmpty := by
  -- Statement by statement no text is set to nothing.
  have each (found : List Statement) (plain : ∀ statement ∈ found, SaysStorable statement)
      (progress : Progress) (noneEmpty : progress.user.NoneEmpty) :
      (found.foldl (readStatement renames) progress).user.NoneEmpty := by
    induction found generalizing progress with
    | nil => exact noneEmpty
    | cons statement rest ih =>
      obtain ⟨here, later⟩ := List.forall_mem_cons.1 plain
      exact ih later _ ((change_readStatement renames progress statement).noneEmpty here noneEmpty)
  exact each (statements text) plain ⟨user, .top⟩ noneEmpty

end Home

/-- The files say nothing that a snapshot would not hold. -/
def SayStorable (texts : FileKind → List Char) : Prop :=
  -- The manifest has no value of these kinds.
  (∀ statement ∈ statements (texts .system), SystemFile.SaysStorable statement) ∧
    ∀ statement ∈ statements (texts .home), Home.SaysStorable statement

instance (texts : FileKind → List Char) : Decidable (SayStorable texts) :=
  inferInstanceAs (Decidable (_ ∧ _))

/-- Whatever files say, they leave no optional text about the machine empty. -/
theorem noneEmpty_readFiles (texts : FileKind → List Char) {base : Model}
    (noneEmpty : base.system.NoneEmpty) :
    (readFiles renames placeholder texts base).system.NoneEmpty := by
  -- The manifest leaves the settings alone, so the system file starts from those of the model.
  have started := (Manifest.read_settings (texts .manifest) base).1
  exact SystemFile.noneEmpty_read (texts .system) (started ▸ noneEmpty)

/-- Files of storable statements leave a storable model storable. -/
theorem storable_readFiles {texts : FileKind → List Char} (plain : SayStorable texts) {base : Model}
    (storable : base.Storable) : (readFiles renames placeholder texts base).Storable := by
  obtain ⟨system, users⟩ := Manifest.read_settings (texts .manifest) base
  -- The manifest sets neither texts of the machine nor users.
  have started : (Manifest.read (texts .manifest) base).Storable :=
    ⟨system ▸ storable.system, users ▸ storable.users, system ▸ storable.finite⟩
  have machine := @SystemFile.storable_read renames placeholder _ plain.1 _ started
  refine ⟨machine.system, ?_, machine.finite⟩
  exact forall_mem_modify machine.users 0 fun _ => Home.noneEmpty_readUser plain.2

/--
Files that are read into a model which a snapshot reproduces leave a model that one reproduces, unless
an identity or a password is empty or a number is not finite.

Files that say nothing of the kind never lead there. JSON is taken to hold each finite number faithfully.
-/
theorem reproduced_readFiles (json : path.format = .ok .json) (renames : Renames)
    (placeholder : String) (texts : FileKind → List Char) {base : Model}
    (reproduced : base.Reproduced path) (faithful : base.FloatsFaithful)
    (alsoFaithful : (readFiles renames placeholder texts base).FloatsFaithful) :
    ((readFiles renames placeholder texts base).Reproduced path ↔
      (∀ user ∈ (readFiles renames placeholder texts base).users, user.NoneEmpty) ∧
        ∀ service ∈ (readFiles renames placeholder texts base).system.services, service.IsFinite) ∧
      (SayStorable texts → (readFiles renames placeholder texts base).Reproduced path) := by
  have storable := (Model.reproduced_iff json faithful).1 reproduced
  have system := @noneEmpty_readFiles renames placeholder texts base storable.system
  rw [Model.reproduced_iff json alsoFaithful]
  -- The settings of the machine are storable in any case, so that users and options decide.
  refine ⟨⟨fun stored => ⟨stored.users, stored.finite⟩, fun ⟨users, finite⟩ => ?_⟩, fun plain => ?_⟩
  · exact ⟨system, users, finite⟩
  · exact storable_readFiles plain storable

/-- A service with a number among its options, and a home that tells who its user is. -/
def measuredTexts : FileKind → List Char
  | .manifest => []
  -- A half is written with few digits, and read back from them.
  | .system => Managed.beginMarker ++
      "\nservices.thermald = \x7b\nenable = true;\nthreshold = 0.5;\n\x7d;\n".toList ++
      Managed.endMarker
  | .home => Managed.beginMarker ++ "\nprograms.git.userName = \"Ada\";\n".toList ++ Managed.endMarker

/-- One half, the number among the options. -/
def half : Binary64 :=
  ⟨0x3FE0000000000000⟩

/-- One half is read back from its text. -/
theorem isFaithful_half : Json.IsFaithful half := by
  have text : Json.float half = "0.5".toList := by decide
  have digits : Json.absorb 0 ['0'] = (0, []) ∧ Json.absorb 0 ['5'] = (5, []) := by decide
  -- The one digit behind the point is scaled to one half, exactly.
  have scaled : Json.scaled false 5 (-1) = some half := by decide +kernel
  have read : Json.number? "0.5".toList = some (Json.floatOf false ['0'] ['5'] 0, []) := rfl
  rw [Json.IsFaithful, text, read]
  simp [Json.floatOf, digits, scaled]

/-- One half is the only number among the options. -/
theorem floatsFaithful_measuredTexts :
    (readFiles .builtin placeholderName measuredTexts .initial).FloatsFaithful := by
  have options : (readFiles .builtin placeholderName measuredTexts .initial).system.services.flatMap
      (·.options.entries) =
        [("settings.PasswordAuthentication", .bool false), ("settings.PermitRootLogin", .text "no"),
          ("threshold", .float half)] := by
    decide
  -- Only the last of the options is a number.
  refine Model.floatsFaithful_of_options options ?_
  rw [List.forall_mem_cons, List.forall_mem_cons, List.forall_mem_singleton]
  refine ⟨nofun, nofun, fun value same _ => ?_⟩
  exact Literal.float.inj same ▸ isFaithful_half

/-- A number and an identity that are read into the initial model are reproduced. -/
theorem reproduced_readFiles_measuredTexts :
    let path := Path.ofText "metadata.json"
    let model := readFiles .builtin placeholderName measuredTexts .initial
    path.format = .ok .json ∧ Model.initial.Reproduced path ∧ Model.initial.FloatsFaithful ∧
      model.FloatsFaithful ∧
        (model.Reproduced path ↔ (∀ user ∈ model.users, user.NoneEmpty) ∧
          ∀ service ∈ model.system.services, service.IsFinite) ∧ model.Reproduced path := by
  intro path model
  -- The snapshot of the initial model has no number at all.
  have json : path.format = .ok .json := by decide
  have initial := Model.reproduced_initial json
  have faithful := Model.floatFree_initial.floatsFaithful
  obtain ⟨exactly, plainly⟩ := reproduced_readFiles json .builtin placeholderName measuredTexts initial
    faithful floatsFaithful_measuredTexts
  exact ⟨json, initial, faithful, floatsFaithful_measuredTexts, exactly, plainly (by decide)⟩

/-- A home in which the name of the user is empty. -/
def unnamedTexts : FileKind → List Char
  -- The other files say nothing.
  | .home => Managed.beginMarker ++ "\nprograms.git.userName = \"\";\n".toList ++ Managed.endMarker
  | _ => []

/-- The empty name leaves the initial model without floating-point numbers. -/
theorem floatFree_unnamedTexts :
    (readFiles .builtin placeholderName unnamedTexts .initial).FloatFree := by
  -- The texts set an identity only, so the services are those of the initial model.
  have services : (readFiles .builtin placeholderName unnamedTexts .initial).system.services =
      System.initial.services := by
    decide
  intro service within
  rw [services] at within
  exact Model.floatFree_initial service within

/-- A service with a number among its options that is beyond all finite ones. -/
def hugeTexts : FileKind → List Char
  -- So many digits are read as an infinite number.
  | .system => Managed.beginMarker ++
      ("\nservices.thermald = \x7b\nthreshold = ".toList ++ List.replicate 400 '9' ++
        ".0;\n\x7d;\n".toList) ++ Managed.endMarker
  | _ => []

/-- The huge number is read as infinity. -/
theorem options_hugeTexts :
    (readFiles .builtin placeholderName hugeTexts .initial).system.services.flatMap
        (·.options.entries) =
      [("settings.PasswordAuthentication", .bool false), ("settings.PermitRootLogin", .text "no"),
        ("threshold", .float (.infinity false))] := by
  -- The texts are closed, and are read.
  decide +kernel

/-- There is no finite number among the options that would not be read back. -/
theorem floatsFaithful_hugeTexts :
    (readFiles .builtin placeholderName hugeTexts .initial).FloatsFaithful := by
  refine Model.floatsFaithful_of_options options_hugeTexts ?_
  rw [List.forall_mem_cons, List.forall_mem_cons, List.forall_mem_singleton]
  -- The only number among the options is infinite.
  refine ⟨nofun, nofun, fun value same finite => ?_⟩
  rw [← Literal.float.inj same] at finite
  cases finite

/-- One of the options is not finite. -/
theorem not_isFinite_hugeTexts :
    ¬ ∀ service ∈ (readFiles .builtin placeholderName hugeTexts .initial).system.services,
      service.IsFinite := by
  intro finite
  -- A number too large for the format is read as infinity.
  have among : ("threshold", Literal.float (.infinity false)) ∈
      (readFiles .builtin placeholderName hugeTexts .initial).system.services.flatMap
        (·.options.entries) := by
    rw [options_hugeTexts]
    simp
  obtain ⟨service, within, member⟩ := List.mem_flatMap.1 among
  exact absurd (finite service within _ member) (by decide)

/-- An empty name is read back as none, and a number that is not finite spoils the whole snapshot. -/
theorem not_reproduced_readFiles_lossyTexts :
    let path := Path.ofText "metadata.json"
    let unnamed := readFiles .builtin placeholderName unnamedTexts .initial
    let huge := readFiles .builtin placeholderName hugeTexts .initial
    Model.initial.Reproduced path ∧
      unnamed.users.map (·.gitName) = [some ""] ∧ ¬ unnamed.Reproduced path ∧
        Model.schema.parse path (Json.pretty unnamed.document) = .ok .initial ∧
      ¬ huge.Reproduced path ∧
        (Model.schema.parse path (Json.pretty huge.document)).isOk = false := by
  intro path unnamed huge
  have json : path.format = .ok .json := by decide
  have name : unnamed.users.map (·.gitName) = [some ""] := by decide
  -- Storing forgets the empty name, and with it the only difference to the initial model.
  have settled : unnamed.settled = .initial := by decide
  refine ⟨Model.reproduced_initial json, name, fun reproduced => ?_, ?_, fun reproduced => ?_, ?_⟩
  · have storable := (Model.reproduced_iff json floatFree_unnamedTexts.floatsFaithful).1 reproduced
    obtain ⟨user, among, empty⟩ : ∃ user ∈ unnamed.users, user.gitName = some "" :=
      List.mem_map.1 (name ▸ List.mem_singleton_self _)
    exact (storable.users user among).1 empty
  · rw [Model.schema_parse_pretty json floatFree_unnamedTexts, settled]
  · have storable := (Model.reproduced_iff json floatsFaithful_hugeTexts).1 reproduced
    exact not_isFinite_hugeTexts storable.finite
  · exact Model.isOk_schema_parse_pretty json floatsFaithful_hugeTexts not_isFinite_hugeTexts

end NixKeeper.Files
