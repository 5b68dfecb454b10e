import NixKeeper.Proofs.Files.Soundness

/-!
Which services are on when the system file has been read.

The last switch of a service decides. A line in its block switches it off with every text but `true`,
also with one that is no truth value, so a service is switched off without a literal `false` exactly
where such a line meets a service that is on.
-/

namespace NixKeeper.Files.SystemFile

variable {renames : Renames} {placeholder name : String}

/-- The list or block around a line, with the number of blocks that are open inside it. -/
inductive Scope where
  | top
  | packages
  | user (depth : Nat)
  /-- The block of the service of a name. -/
  | service (name : String) (depth : Nat)
deriving DecidableEq

/-- The scope behind a line of a block. -/
def Scope.behind (clean : List Char) (depth : Nat) (inside : Nat → Scope) : Scope :=
  -- A brace at the beginning closes, even if another one opens at the end of the line.
  if closes clean then
    match depth with
    | 0 => .top
    | depth + 1 => inside depth
  else if opens clean then inside (depth + 1)
  else inside depth

/-- The scope behind a line. -/
def Scope.next (scope : Scope) (statement : Statement) : Scope :=
  match scope with
  | .top =>
    -- Outside of blocks the meaning of the line decides on the next scope.
    match classify statement.clean with
    | .userStart _ => .user 0
    | .serviceStart name => .service name 0
    | .packagesStart => if (listOpening statement.raw).2 then .top else .packages
    | _ => .top
  | .packages => if (listLine statement.raw).2 then .top else .packages
  | .user depth => .behind statement.clean depth .user
  | .service name depth => .behind statement.clean depth (.service name)

/-- The service whose switch a line of its block sets, and what the line assigns to the switch. -/
def assignedSwitch? (scope : Scope) (statement : Statement) : Option (String × List Char) :=
  match scope with
  -- Lines of inner blocks, and those that open or close one, set no option of the service.
  | .service name 0 =>
    if closes statement.clean || opens statement.clean then none
    else
      (option? statement.clean).bind fun (key, value) =>
        if key = enableOption then some (name, value) else none
  | _ => none

/-- The service that a line switches, and whether the line switches it on. -/
def switch? (scope : Scope) (statement : Statement) : Option (String × Bool) :=
  match scope, classify statement.clean with
  | .top, .serviceEnable name => some (name, true)
  | _, _ => (assignedSwitch? scope statement).map fun (name, value) =>
    -- Whatever is not the word for true switches off.
    (name, Text.trim value == "true".toList)

/-- The switches of a service in lines that follow in a scope. -/
def switches (name : String) : Scope → List Statement → List Bool
  | _, [] => []
  -- Switches of other services are left out.
  | scope, statement :: rest =>
    ((switch? scope statement).filter (·.1 = name)).toList.map (·.2) ++
      switches name (scope.next statement) rest

/-- The service of a name is there and on. -/
def IsOn (services : List Service) (name : String) : Prop :=
  ∃ service ∈ services, service.name = name ∧ service.enabled = true

instance (services : List Service) (name : String) : Decidable (IsOn services name) := by
  unfold IsOn
  infer_instance

/-- A service that is claimed is on only if it was on before. -/
theorem isOn_claimService (services : List Service) (claimed : String) :
    IsOn (claimService services claimed).2 name ↔ IsOn services name := by
  unfold claimService
  split
  · exact Iff.rfl
  · -- A service that is added is off.
    simp [IsOn, or_and_right, exists_or]

/-- The service at the place of a name is on or off after it has been switched, and no other changes. -/
theorem isOn_modify {services : List Service} {switched : String} {index : Nat} {on : Bool}
    (update : Service → Service) (distinct : DistinctBy Service.name services)
    (found : services.findIdx? (·.name == switched) = some index)
    (keeps : ∀ service, (update service).name = service.name)
    (sets : ∀ service, (update service).enabled = on) :
    IsOn (services.modify index update) name ↔
      if switched = name then on = true else IsOn services name := by
  -- Names are distinct, so the update is one of all services of the name.
  have there : switched ∈ services.map (·.name) := mem_map_of_findIdx? found
  rw [modify_of_findIdx? update distinct found]
  simp only [IsOn, List.mem_map, exists_exists_and_eq_and]
  split
  · rename_i same
    constructor
    · rintro ⟨service, within, named, enabled⟩
      by_cases here : service.name = switched
      · rw [if_pos here, sets] at enabled
        exact enabled
      · rw [if_neg here] at named
        exact absurd (named.trans same.symm) here
    · intro enabled
      -- The service of that name is there, and has been set.
      obtain ⟨service, within, named⟩ := List.mem_map.1 there
      refine ⟨service, within, ?_⟩
      rw [if_pos named, keeps, sets]
      exact ⟨named.trans same, enabled⟩
  · rename_i different
    refine exists_congr fun service => and_congr_right fun within => ?_
    by_cases here : service.name = switched
    · -- Neither before nor after has the service that is switched the other name.
      have other : service.name ≠ name := fun named => different (here.symm.trans named)
      rw [if_pos here, keeps]
      simp [other]
    · rw [if_neg here]

/-- Whether a service is on stays as it is where names and switches do. -/
theorem isOn_modify_of_keeps {services : List Service} (index : Nat) (update : Service → Service)
    (keeps : ∀ service, (update service).name = service.name)
    (same : ∀ service, (update service).enabled = service.enabled) :
    IsOn (services.modify index update) name ↔ IsOn services name := by
  have alike : (services.modify index update).map (fun service => (service.name, service.enabled)) =
      services.map fun service => (service.name, service.enabled) := by
    induction services generalizing index with
    | nil => cases index <;> rfl
    | cons first rest ih =>
      cases index with
      | zero => simp [keeps, same]
      | succ before => simpa using ih before
  -- A service that is on is one that is noted as on.
  have noted (services : List Service) : IsOn services name ↔
      (name, true) ∈ services.map fun service => (service.name, service.enabled) := by
    simp [IsOn]
  rw [noted, noted, alike]

/-- A reading has come to a scope. -/
inductive ComesTo (now : Progress) : Scope → Prop where
  | top (context : now.context = .top) : ComesTo now .top
  | packages (context : now.context = .packages) : ComesTo now .packages
  | user {index : Option Nat} {depth : Nat} (context : now.context = .user index depth) :
      ComesTo now (.user depth)
  /-- The open block is that of the service of the name. -/
  | service {name : String} {index depth : Nat} (context : now.context = .service index depth)
      (found : now.model.system.services.findIdx? (·.name == name) = some index) :
      ComesTo now (.service name depth)

/-- A reading has come to a scope, and its services are known by different names. -/
structure Tracks (scope : Scope) (now : Progress) : Prop where
  distinct : DistinctBy Service.name now.model.system.services
  comes : ComesTo now scope

/-- Whether a service is on after a line, if that line may switch one. -/
def afterSwitch (switch : Option (String × Bool)) (name : String) (on : Prop) : Prop :=
  -- A switch of another service changes nothing.
  match switch with
  | some (switched, value) => if switched = name then value = true else on
  | none => on

/-- A reading keeps track of the scope, and its services are switched as told. -/
structure Switched (switch : Option (String × Bool)) (scope : Scope) (now next : Progress) : Prop where
  tracks : Tracks scope next
  isOn (name : String) : IsOn next.model.system.services name ↔
    afterSwitch switch name (IsOn now.model.system.services name)

variable {now next : Progress} {scope : Scope} {statement : Statement}

/-- Where the services stay as they are, no service is switched. -/
theorem Switched.of_services (tracks : Tracks scope now) {behind : Scope}
    (services : next.model.system.services = now.model.system.services)
    (comes : ComesTo next behind) : Switched none behind now next where
  tracks := ⟨services ▸ tracks.distinct, comes⟩
  -- The services are the same, so no name changed its switch.
  isOn name := by rw [services, afterSwitch]

/-- Different names of services stay different when one is claimed. -/
theorem distinct_claimService {services : List Service} (distinct : DistinctBy Service.name services)
    (name : String) : DistinctBy Service.name (claimService services name).2 := by
  refine List.pairwise_map.1 ?_
  rw [map_name_claimService]
  -- Claiming enters the name unless it is known.
  exact nodup_withName (List.pairwise_map.2 distinct) name

/-- Different names of services stay different when one is changed that keeps its name. -/
theorem distinct_modify {services : List Service} (distinct : DistinctBy Service.name services)
    (index : Nat) (update : Service → Service)
    (keeps : ∀ service, (update service).name = service.name) :
    DistinctBy Service.name (services.modify index update) := by
  -- The update keeps the name, so the list of names stays as it is.
  refine List.pairwise_map.1 ?_
  rw [map_modify_of_keeps index keeps]
  exact List.pairwise_map.2 distinct

/-- A block of a user that is opened switches no service. -/
theorem switched_openUser (tracks : Tracks scope now) (name : String) :
    Switched none (.user 0) now (openUser placeholder now name) := by
  -- Whether the block is passed over or not, the services stay.
  by_cases again : name ∈ now.seen
  · rw [openUser_of_mem again]
    exact .of_services tracks rfl (.user rfl)
  · rw [openUser_of_not_mem again]
    exact .of_services tracks rfl (.user rfl)

/-- A part of a list of packages switches no service. -/
theorem switched_readPackages (tracks : Tracks scope now) (part : List Char × Bool) :
    Switched none (if part.2 then .top else .packages) now (readPackages renames now part) := by
  refine .of_services tracks rfl ?_
  -- The list is left or stays open in the scope as in the reading.
  cases closed : part.2 with
  | true => exact .top (by simp [readPackages, closed])
  | false => exact .packages (by simp [readPackages, closed])

/-- A service that is switched on by its path is on. -/
theorem switched_enableService (tracks : Tracks scope now) (top : now.context = .top)
    (name : String) : Switched (some (name, true)) .top now (enableService now name) := by
  -- The service is claimed first, which switches nothing, and then set in its place.
  have found := findIdx?_claimService now.model.system.services name
  have claimed := distinct_claimService tracks.distinct name
  refine ⟨⟨distinct_modify claimed _ _ fun _ => rfl, .top top⟩, fun other => ?_⟩
  rw [afterSwitch, ← isOn_claimService now.model.system.services name]
  exact isOn_modify _ claimed found (fun _ => rfl) fun _ => rfl

/-- A line outside of lists and blocks switches at most the service whose path it switches on. -/
theorem switched_readTop (tracks : Tracks .top now) (statement : Statement)
    (top : now.context = .top) :
    Switched (switch? .top statement) (Scope.next .top statement) now
      (readTop renames placeholder now statement) := by
  have distinct := tracks.distinct
  rw [readTop]
  unfold switch? Scope.next
  -- Three meanings open something, one switches a service on, and the others set something else.
  cases classify statement.clean with
  | userStart name => exact switched_openUser tracks name
  | packagesStart => exact switched_readPackages tracks _
  | serviceStart name =>
    have found := findIdx?_claimService now.model.system.services name
    exact
      { tracks := ⟨distinct_claimService distinct name, .service rfl found⟩
        isOn := fun other => isOn_claimService _ _ }
  | serviceEnable name =>
    exact switched_enableService tracks top name
  | hostname | timezone | locale | keyboardLayout | hardwarePreset | experimentalFeatures
  | swapSize | bootloader | nothing => exact .of_services tracks rfl (.top top)

/-- A line that opens or closes a block leads to the same scope in the reading. -/
theorem behind_of_nested {clean : List Char} {depth : Nat} {inside : Nat → Context}
    {context : Context} (within : Nat → Scope) (change : nested clean depth inside = some context) :
    context = .top ∧ Scope.behind clean depth within = .top ∨
      ∃ depth', context = inside depth' ∧ Scope.behind clean depth within = within depth' := by
  unfold nested at change
  unfold Scope.behind
  split at change
  · -- Reading and scope ask the same of the line, in the same order.
    rename_i closing
    rw [if_pos closing]
    split at change
    · exact .inl ⟨(Option.some.inj change).symm, rfl⟩
    · exact .inr ⟨_, (Option.some.inj change).symm, rfl⟩
  · rename_i unclosed
    rw [if_neg unclosed]
    split at change
    · rename_i opening
      exact .inr ⟨_, (Option.some.inj change).symm, if_pos opening⟩
    · cases change

/-- The context inside a block changes exactly on lines that open or close a block. -/
theorem nested_eq_none_iff {clean : List Char} {depth : Nat} {inside : Nat → Context} :
    nested clean depth inside = none ↔ (closes clean || opens clean) = false := by
  -- A closing brace is looked for before an opening one.
  unfold nested
  cases closes clean with
  | true => cases depth <;> simp
  | false => cases opens clean <;> simp

/-- A line that neither opens nor closes a block stays in its scope. -/
theorem behind_of_plain {clean : List Char} (plain : (closes clean || opens clean) = false)
    (depth : Nat) (within : Nat → Scope) : Scope.behind clean depth within = within depth := by
  -- No brace moves the reader, so it stays where it was.
  obtain ⟨unclosed, unopened⟩ := Bool.or_eq_false_iff.1 plain
  simp [Scope.behind, unclosed, unopened]

/-- A line in the block of a user switches no service. -/
theorem switched_readUser (tracks : Tracks scope now) {index : Option Nat} {depth : Nat}
    (context : now.context = .user index depth) (clean : List Char) :
    Switched none (.behind clean depth .user) now (readUser now index depth clean) := by
  obtain ⟨-, behind⟩ := follow_readUser now index depth clean
  -- The services are not touched, and the scope follows the braces.
  have services : (readUser now index depth clean).model.system.services =
      now.model.system.services := by
    unfold readUser
    split
    · rfl
    · split <;> rfl
    · rfl
  refine .of_services tracks services ?_
  -- A brace leads to the top or to another depth, and any other line stays.
  cases change : nested clean depth (.user index) with
  | some next =>
    rw [change] at behind
    obtain ⟨rfl, same⟩ | ⟨inner, rfl, same⟩ := behind_of_nested .user change
    · exact same ▸ .top behind
    · exact same ▸ .user behind
  | none =>
    rw [change] at behind
    rw [behind_of_plain (nested_eq_none_iff.1 change)]
    exact .user (behind.trans context)

/-- A line of a service's block that sets the switch sets nothing else. -/
theorem readServiceLine_of_switch {clean value : List Char} (service : Service)
    (option : option? clean = some (enableOption, value)) :
    readServiceLine clean service = { service with enabled := Text.trim value == "true".toList } := by
  -- The option is the switch, so its value decides.
  rw [readServiceLine, option]
  exact if_pos rfl

/-- A line of a service's block that does not set the switch leaves it as it is. -/
theorem enabled_readServiceLine {clean : List Char} (service : Service)
    (other : ∀ value, option? clean ≠ some (enableOption, value)) :
    (readServiceLine clean service).enabled = service.enabled := by
  unfold readServiceLine
  split
  · rfl
  · -- An option of another key leaves the switch.
    rename_i key value option
    have different : key ≠ enableOption := by
      rintro rfl
      exact other value option
    rw [if_neg different]
    split <;> rfl

/-- A line in the block of a service switches that service if it assigns to the switch. -/
theorem switched_readService (tracks : Tracks scope now) {index depth : Nat}
    (context : now.context = .service index depth)
    (found : now.model.system.services.findIdx? (·.name == name) = some index)
    (statement : Statement) :
    Switched (switch? (.service name depth) statement)
      (.behind statement.clean depth (.service name)) now
      (readService now index depth statement.clean) := by
  have switch : switch? (.service name depth) statement =
      (assignedSwitch? (.service name depth) statement).map fun (name, value) =>
        (name, Text.trim value == "true".toList) := rfl
  rw [switch, readService]
  cases change : nested statement.clean depth (.service index) with
  | some next =>
    -- A line that opens or closes a block says nothing else.
    have unplain : (closes statement.clean || opens statement.clean) = true := by
      by_contra plain
      rw [nested_eq_none_iff.2 (by simpa using plain)] at change
      cases change
    have silent : assignedSwitch? (.service name depth) statement = none := by
      cases depth with
      | zero => exact if_pos unplain
      | succ depth => rfl
    rw [silent]
    refine .of_services tracks rfl ?_
    obtain ⟨rfl, same⟩ | ⟨inner, rfl, same⟩ := behind_of_nested (.service name) change
    · exact same ▸ .top rfl
    · exact same ▸ .service rfl found
  | none =>
    have plain := nested_eq_none_iff.1 change
    rw [behind_of_plain plain]
    cases depth with
    | succ depth => exact .of_services tracks rfl (.service context found)
    | zero =>
      -- At depth zero the line may assign an option, which keeps the name of the service.
      have keeps := name_readServiceLine statement.clean
      have still : ((now.model.system.services.modify index
          (readServiceLine statement.clean)).findIdx? (·.name == name)) = some index :=
        findIdx?_of_front (map_modify_of_keeps index keeps ▸ List.prefix_rfl) found
      rw [assignedSwitch?, if_neg (by simp [plain])]
      refine ⟨⟨distinct_modify tracks.distinct _ _ keeps, .service context still⟩, fun other => ?_⟩
      by_cases sets : ∃ value, option? statement.clean = some (enableOption, value)
      · obtain ⟨value, option⟩ := sets
        rw [option]
        refine isOn_modify _ tracks.distinct found keeps fun service => ?_
        rw [readServiceLine_of_switch service option]
      · -- An option of another key leaves all services as they were.
        have different (service : Service) :=
          enabled_readServiceLine service fun value option => sets ⟨value, option⟩
        have silent : ((option? statement.clean).bind fun (key, value) =>
            if key = enableOption then some (name, value) else none) = none := by
          rw [Option.bind_eq_none_iff]
          rintro ⟨key, value⟩ option
          refine if_neg ?_
          rintro rfl
          exact sets ⟨value, option⟩
        rw [silent]
        exact isOn_modify_of_keeps _ _ keeps different

/-- Every line switches the service that it is told to switch, and leads to the scope behind it. -/
theorem switched_readStatement (tracks : Tracks scope now) (statement : Statement) :
    Switched (switch? scope statement) (scope.next statement) now
      (readStatement renames placeholder now statement) := by
  obtain ⟨distinct, comes⟩ := tracks
  -- One case for each scope, in which the reading is in the context of the same kind.
  cases comes with
  | top context =>
    rw [readStatement, context]
    exact switched_readTop ⟨distinct, .top context⟩ statement context
  | packages context =>
    rw [readStatement, context]
    exact switched_readPackages ⟨distinct, .packages context⟩ _
  | user context =>
    rw [readStatement, context]
    exact switched_readUser ⟨distinct, .user context⟩ context _
  | service context found =>
    rw [readStatement, context]
    exact switched_readService ⟨distinct, .service context found⟩ context found statement

/-- Whether a service is on after it has been switched several times: the last switch counts. -/
def leftOn (on : Prop) (switched : List Bool) : Prop :=
  -- Without a switch it is as it was.
  match switched.getLast? with
  | some value => value = true
  | none => on

instance (on : Prop) [Decidable on] (switched : List Bool) : Decidable (leftOn on switched) := by
  unfold leftOn
  split <;> infer_instance

/-- Switches that follow others decide unless there are none. -/
theorem leftOn_append (on : Prop) (first second : List Bool) :
    leftOn on (first ++ second) = leftOn (leftOn on first) second := by
  -- The last of the later switches decides, if there is one.
  cases last : second.getLast? with
  | none =>
    rw [List.getLast?_eq_none_iff] at last
    rw [last, List.append_nil]
    rfl
  | some value => simp [leftOn, List.getLast?_append, last]

/-- A line switches a service at most once. -/
theorem afterSwitch_eq (switch : Option (String × Bool)) (name : String) (on : Prop) :
    afterSwitch switch name on =
      leftOn on ((switch.filter (·.1 = name)).toList.map (·.2)) := by
  cases switch with
  | none => rfl
  | some pair =>
    -- A switch of another service is filtered out.
    by_cases same : pair.1 = name <;> simp [afterSwitch, leftOn, Option.filter, same]

/-- Behind several lines a service is left as its last switch has it. -/
theorem tracks_foldl (tracks : Tracks scope now) (found : List Statement) :
    Tracks (found.foldl Scope.next scope) (found.foldl (readStatement renames placeholder) now) ∧
      ∀ name, IsOn (found.foldl (readStatement renames placeholder) now).model.system.services name ↔
        leftOn (IsOn now.model.system.services name) (switches name scope found) := by
  -- Line by line, the switches of the rest going over those of the first line.
  induction found generalizing scope now with
  | nil => exact ⟨tracks, fun name => Iff.rfl⟩
  | cons statement rest ih =>
    have step := @switched_readStatement renames placeholder _ _ tracks statement
    obtain ⟨still, isOn⟩ := ih step.tracks
    refine ⟨still, fun name => (isOn name).trans ?_⟩
    rw [switches, leftOn_append, ← afterSwitch_eq, step.isOn name]

/-- What a reading has come to before the line at an index of the region, or in the end. -/
def progressAt (renames : Renames) (placeholder : String) (text : List Char) (base : Model)
    (index : Nat) : Progress :=
  -- The text is read up to the line of that index.
  ((statements text).take index).foldl (readStatement renames placeholder) ⟨base, .top, []⟩

/-- The scope of the line at an index of the region. -/
def scopeAt (text : List Char) (index : Nat) : Scope :=
  ((statements text).take index).foldl .next .top

/-- The service whose switch the line at an index sets in its block, and what it assigns to the switch. -/
def switchAssigned? (text : List Char) (index : Nat) : Option (String × List Char) :=
  (statements text)[index]?.bind (assignedSwitch? (scopeAt text index))

/-- The switches of a service before the line at an index of the region. -/
def switchesBefore (text : List Char) (index : Nat) (name : String) : List Bool :=
  switches name .top ((statements text).take index)

/-- A service is on before a line of the region, such as the first one, or in the end. -/
def WasOn (renames : Renames) (placeholder : String) (text : List Char) (base : Model)
    (name : String) : Prop :=
  -- The service was on at some line, the first included.
  ∃ index, IsOn (progressAt renames placeholder text base index).model.system.services name

/-- Before each line of the region the scope is known, and which services are on. -/
theorem tracks_progressAt {base : Model} (distinct : (base.system.services.map (·.name)).Nodup)
    (text : List Char) (index : Nat) :
    Tracks (scopeAt text index) (progressAt renames placeholder text base index) ∧
      ∀ name, IsOn (progressAt renames placeholder text base index).model.system.services name ↔
        leftOn (IsOn base.system.services name) (switchesBefore text index name) := by
  -- The text so far is read from the beginning, outside of blocks.
  have begins : Tracks .top ⟨base, .top, []⟩ := ⟨List.pairwise_map.1 distinct, .top rfl⟩
  exact tracks_foldl begins _

/-- Behind the last line of the region the reading is at its end. -/
theorem progressAt_of_length_le {text : List Char} {index : Nat} (base : Model)
    (past : (statements text).length ≤ index) :
    progressAt renames placeholder text base index =
      finalProgress renames placeholder text base := by
  -- All statements are among the first ones.
  rw [progressAt, List.take_of_length_le past]
  rfl

/-- Every line is read in the scope that the lines before it have led to. -/
theorem progressAt_succ {text : List Char} {index : Nat} (base : Model)
    (there : (statements text)[index]? = some statement) :
    progressAt renames placeholder text base (index + 1) =
      readStatement renames placeholder (progressAt renames placeholder text base index) statement := by
  -- The next statement is the one step that is added.
  rw [progressAt, List.take_add_one, there, List.foldl_append]
  rfl

/-- A service is on in the end as its last switch in the region has it, or as it was before. -/
theorem isOn_read_iff {base : Model} (distinct : (base.system.services.map (·.name)).Nodup)
    (text : List Char) (name : String) :
    IsOn (read renames placeholder text base).system.services name ↔
      leftOn (IsOn base.system.services name) (switches name .top (statements text)) := by
  -- The whole text is read from the beginning, outside of blocks.
  have begins : Tracks .top ⟨base, .top, []⟩ := ⟨List.pairwise_map.1 distinct, .top rfl⟩
  exact (tracks_foldl begins (statements text)).2 name

/-- A value is the word for true or for false. -/
def IsTruthValue (value : List Char) : Prop :=
  Nix.parse? value = some (.bool true) ∨ Nix.parse? value = some (.bool false)

instance (value : List Char) : Decidable (IsTruthValue value) := by
  unfold IsTruthValue
  infer_instance

/-- A value is read as a truth value exactly if it is the word for it. -/
theorem parse?_eq_bool_iff {value : List Char} {on : Bool} :
    Nix.parse? value = some (.bool on) ↔
      Text.trim value = (if on then "true" else "false").toList := by
  unfold Nix.parse?
  dsimp only
  split
  · -- The two words are tried first.
    rename_i isTrue
    rw [isTrue]
    cases on <;> simp
  · rename_i notTrue
    split
    · rename_i isFalse
      rw [isFalse]
      cases on <;> simp
    · rename_i notFalse
      -- Numbers, lists and texts are other literals.
      have other : Text.trim value ≠ (if on then "true" else "false").toList := by
        cases on
        · exact notFalse
        · exact notTrue
      refine iff_of_false ?_ other
      split
      · simp
      · simp
      · split <;> simp

/-- A line that assigns to a switch stands in the block of the service and names the option. -/
theorem of_assignedSwitch? {value : List Char}
    (assigned : assignedSwitch? scope statement = some (name, value)) :
    scope = .service name 0 ∧ (closes statement.clean || opens statement.clean) = false ∧
      option? statement.clean = some (enableOption, value) := by
  unfold assignedSwitch? at assigned
  -- Only one branch assigns anything to the switch.
  split at assigned
  · split at assigned
    · cases assigned
    · rename_i plain
      obtain ⟨⟨key, other⟩, option, chosen⟩ := Option.bind_eq_some_iff.1 assigned
      dsimp only at chosen
      split at chosen
      · rename_i isSwitch
        obtain ⟨rfl, rfl⟩ := Prod.mk.inj (Option.some.inj chosen)
        exact ⟨rfl, by simpa using plain, isSwitch ▸ option⟩
      · cases chosen
  · cases assigned

/-- A line that assigns anything but the word for true to a switch switches the service off. -/
theorem switch?_of_assignedSwitch? {value : List Char}
    (assigned : assignedSwitch? scope statement = some (name, value)) :
    switch? scope statement = some (name, Text.trim value == "true".toList) := by
  -- The switch is the assigned value, read as a Boolean.
  obtain ⟨rfl, -, -⟩ := of_assignedSwitch? assigned
  rw [switch?, assigned, Option.map_some]
  exact fun _ same => nomatch same

/-- A service is switched off by a line that assigns anything but the word for true to its switch. -/
theorem exists_assigned_of_switch? (off : switch? scope statement = some (name, false)) :
    ∃ value, assignedSwitch? scope statement = some (name, value) ∧
      Text.trim value ≠ "true".toList := by
  unfold switch? at off
  -- A path that is switched on by itself is not switched off.
  split at off
  · cases off
  · obtain ⟨⟨other, value⟩, assigned, same⟩ := Option.map_eq_some_iff.1 off
    obtain ⟨rfl, notTrue⟩ := Prod.mk.inj same
    exact ⟨value, assigned, by simpa using notTrue⟩

/-- A line that switches off a service that is off changes nothing at all. -/
theorem readStatement_of_off {value : List Char} (tracks : Tracks scope now)
    (assigned : assignedSwitch? scope statement = some (name, value))
    (notTrue : Text.trim value ≠ "true".toList)
    (off : ¬ IsOn now.model.system.services name) :
    readStatement renames placeholder now statement = now := by
  obtain ⟨rfl, plain, option⟩ := of_assignedSwitch? assigned
  obtain ⟨distinct, comes⟩ := tracks
  cases comes with
  | @service _ index _ context found =>
    -- The line sets the switch of this service alone, and to what it is.
    have same : now.model.system.services.modify index (readServiceLine statement.clean) =
        now.model.system.services := by
      rw [modify_of_findIdx? _ distinct found]
      refine (List.map_congr_left fun service within => ?_).trans (List.map_id _)
      split
      · -- The service has the name, so it is off already.
        rename_i named
        have isOff : service.enabled = false := by
          by_contra enabled
          exact off ⟨service, within, named, by simpa using enabled⟩
        rw [readServiceLine_of_switch service option, beq_eq_false_iff_ne.2 notTrue, ← isOff]
        rfl
      · rfl
    rw [readStatement, context]
    dsimp only
    rw [readService, nested_eq_none_iff.2 plain]
    dsimp only
    rw [if_pos rfl, withSystem, same]

/-- Where a service is off behind a line and was on before it, the line has switched it off. -/
theorem Switched.eq_of_off {switch : Option (String × Bool)}
    (switched : Switched switch scope now next) (on : IsOn now.model.system.services name)
    (off : ¬ IsOn next.model.system.services name) : switch = some (name, false) := by
  rw [switched.isOn name] at off
  -- The line has to switch something, and that has to be this service, off.
  cases switch with
  | none => exact absurd on off
  | some pair =>
    obtain ⟨other, value⟩ := pair
    rw [afterSwitch] at off
    split at off
    · rename_i same
      have isFalse : value = false := by simpa using off
      rw [same, isFalse]
    · exact absurd on off

/-- A service that was on and is off in the end is switched off by a line in one of its blocks. -/
theorem exists_switchedOff {text : List Char} {base : Model}
    (distinct : (base.system.services.map (·.name)).Nodup)
    (wasOn : WasOn renames placeholder text base name)
    (isOff : ¬ IsOn (read renames placeholder text base).system.services name) :
    ∃ index value, switchAssigned? text index = some (name, value) ∧
      Text.trim value ≠ "true".toList ∧
      leftOn (IsOn base.system.services name) (switchesBefore text index name) := by
  have tracked := @tracks_progressAt renames placeholder base distinct text
  -- Somewhere the service is on before a line and off behind it.
  obtain ⟨index, on, off⟩ : ∃ index,
      IsOn (progressAt renames placeholder text base index).model.system.services name ∧
      ¬ IsOn (progressAt renames placeholder text base (index + 1)).model.system.services name := by
    obtain ⟨first, on⟩ := wasOn
    by_contra none
    have later (index : Nat) : IsOn (progressAt renames placeholder text base
        (first + index)).model.system.services name := by
      induction index with
      | zero => exact on
      | succ before ih => exact by_contra fun off => none ⟨_, ih, off⟩
    have ending := later (statements text).length
    rw [progressAt_of_length_le base (Nat.le_add_left _ _)] at ending
    exact isOff ending
  obtain ⟨tracks, isOn⟩ := tracked index
  cases there : (statements text)[index]? with
  | none =>
    -- Behind the last line nothing is switched any more.
    have past := List.getElem?_eq_none_iff.1 there
    rw [progressAt_of_length_le base (Nat.le_succ_of_le past),
      ← progressAt_of_length_le base past] at off
    exact absurd on off
  | some statement =>
    rw [progressAt_succ base there] at off
    have switched := @switched_readStatement renames placeholder _ _ tracks statement
    obtain ⟨value, assigned, notTrue⟩ := exists_assigned_of_switch? (switched.eq_of_off on off)
    refine ⟨index, value, ?_, notTrue, (isOn name).1 on⟩
    rw [switchAssigned?, there]
    exact assigned

/--
No service is switched off without a literal `false` in one of its blocks, and a line that assigns no
truth value to a switch says nothing, exactly if every such line meets a service that is off.
-/
theorem understands_switches_iff {text : List Char} {base : Model}
    (distinct : (base.system.services.map (·.name)).Nodup) :
    ((∀ name, WasOn renames placeholder text base name →
        ¬ IsOn (read renames placeholder text base).system.services name →
        ∃ index value, switchAssigned? text index = some (name, value) ∧
          Nix.parse? value = some (.bool false)) ∧
      ∀ index name value, switchAssigned? text index = some (name, value) → ¬ IsTruthValue value →
        progressAt renames placeholder text base (index + 1) =
          progressAt renames placeholder text base index) ↔
      ∀ index name value, switchAssigned? text index = some (name, value) → ¬ IsTruthValue value →
        ¬ leftOn (IsOn base.system.services name) (switchesBefore text index name) := by
  have tracked := @tracks_progressAt renames placeholder base distinct text
  have notTrue {value : List Char} (strange : ¬ IsTruthValue value) :
      Text.trim value ≠ "true".toList :=
    fun isTrue => strange (.inl (parse?_eq_bool_iff.2 isTrue))
  constructor
  · rintro ⟨-, inert⟩ index name value assigns strange on
    obtain ⟨statement, there, assigned⟩ := Option.bind_eq_some_iff.1 assigns
    obtain ⟨tracks, isOn⟩ := tracked index
    have step := @switched_readStatement renames placeholder _ _ tracks statement
    rw [← progressAt_succ base there, inert index name value assigns strange] at step
    -- A line that says nothing leaves the service on, but this one switches it off.
    have still := (step.isOn name).1 ((isOn name).2 on)
    rw [switch?_of_assignedSwitch? assigned, afterSwitch, if_pos rfl] at still
    exact notTrue strange (beq_iff_eq.1 still)
  · intro meetsOff
    refine ⟨fun name wasOn isOff => ?_, fun index name value assigns strange => ?_⟩
    · obtain ⟨index, value, assigns, other, on⟩ := exists_switchedOff distinct wasOn isOff
      refine ⟨index, value, assigns, ?_⟩
      -- The line meets a service that is on, so what it assigns is a truth value.
      by_contra notFalse
      refine meetsOff index name value assigns ?_ on
      exact fun truth => truth.elim (fun isTrue => other (parse?_eq_bool_iff.1 isTrue)) notFalse
    · obtain ⟨statement, there, assigned⟩ := Option.bind_eq_some_iff.1 assigns
      obtain ⟨tracks, isOn⟩ := tracked index
      rw [progressAt_succ base there]
      refine readStatement_of_off tracks assigned (notTrue strange) ?_
      exact fun on => meetsOff index name value assigns strange ((isOn name).1 on)

/-- Behind the last line of the region nothing is assigned. -/
theorem lt_length_of_switchAssigned? {text value : List Char} {index : Nat}
    (assigns : switchAssigned? text index = some (name, value)) : index < (statements text).length := by
  -- A statement is there only within the text.
  obtain ⟨statement, there, -⟩ := Option.bind_eq_some_iff.1 assigns
  exact (List.getElem?_eq_some_iff.1 there).1

/-- A file that assigns texts to the switch of a service in a block of it. -/
def switchText (service : String) (values : List String) : List Char :=
  -- One block with a line for each of the values.
  Managed.beginMarker ++ '\n' :: service.toList ++ " = \x7b\n".toList ++
    values.flatMap (fun value => "  enable = ".toList ++ value.toList ++ ";\n".toList) ++
    "\x7d;\n".toList ++ Managed.endMarker

/-- A service that is switched off by a literal stays off when an expression follows. -/
theorem understands_switches_of_false :
    (Model.initial.system.services.map (·.name)).Nodup ∧
      (∀ name, WasOn .builtin placeholderName
          (switchText "services.openssh" ["false", "lib.mkDefault true"]) .initial name →
        ¬ IsOn (read .builtin placeholderName
          (switchText "services.openssh" ["false", "lib.mkDefault true"]) .initial).system.services
            name →
        ∃ index value, switchAssigned?
            (switchText "services.openssh" ["false", "lib.mkDefault true"]) index =
              some (name, value) ∧
          Nix.parse? value = some (.bool false)) ∧
      ¬ IsOn (read .builtin placeholderName
        (switchText "services.openssh" ["false", "lib.mkDefault true"]) .initial).system.services
          "services.openssh" := by
  have distinct : (Model.initial.system.services.map (·.name)).Nodup := by decide
  refine ⟨distinct, ((understands_switches_iff distinct).2 ?_).1, by decide⟩
  intro index name value assigns strange
  have within := lt_length_of_switchAssigned? assigns
  -- Each line of the region is looked at.
  have each : ∀ index < (statements
      (switchText "services.openssh" ["false", "lib.mkDefault true"])).length,
      ∀ pair ∈ switchAssigned? (switchText "services.openssh" ["false", "lib.mkDefault true"]) index,
        ¬ IsTruthValue pair.2 → ¬ leftOn (IsOn Model.initial.system.services pair.1)
          (switchesBefore (switchText "services.openssh" ["false", "lib.mkDefault true"]) index
            pair.1) := by decide
  exact each index within _ assigns strange

/-- An expression that is no truth value switches off a service that is on. -/
theorem switched_off_by_expression :
    (Model.initial.system.services.map (·.name)).Nodup ∧
      WasOn .builtin placeholderName (switchText "services.openssh" ["lib.mkDefault true"]) .initial
        "services.openssh" ∧
      ¬ IsOn (read .builtin placeholderName
        (switchText "services.openssh" ["lib.mkDefault true"]) .initial).system.services
          "services.openssh" ∧
      ¬ ∃ index value, switchAssigned? (switchText "services.openssh" ["lib.mkDefault true"]) index =
          some ("services.openssh", value) ∧ Nix.parse? value = some (.bool false) := by
  refine ⟨by decide, ⟨0, by decide⟩, by decide, ?_⟩
  rintro ⟨index, value, assigns, isFalse⟩
  -- The text has few statements, so each of them is looked at.
  have within := lt_length_of_switchAssigned? assigns
  have each : ∀ index < (statements
      (switchText "services.openssh" ["lib.mkDefault true"])).length,
      ∀ pair ∈ switchAssigned? (switchText "services.openssh" ["lib.mkDefault true"]) index,
        Nix.parse? pair.2 ≠ some (.bool false) := by decide
  exact each index within _ assigns isFalse

end NixKeeper.Files.SystemFile
