import NixKeeper.Proofs.Files.SystemFile.Growth
import NixKeeper.Proofs.Table

/-!
A second reading of the system file, statement by statement next to the first one.

The second reading begins where the first one ends. All names are there already, so every block leads
to the same item in both readings.
-/

namespace NixKeeper.Files.SystemFile

variable {renames : Renames} {placeholder name : String}

/-- The settings of a machine that are read again; of the packages none is new. -/
structure SystemAgrees (now later final : System) : Prop where
  hostname : Regained System.hostname (some now) later final
  timezone : Regained System.timezone (some now) later final
  locale : Regained System.locale (some now) later final
  keyboardLayout : Regained System.keyboardLayout (some now) later final
  experimentalFeatures : Regained System.experimentalFeatures (some now) later final
  bootloader : Regained System.bootloader (some now) later final
  swapSize : Regained System.swapSize (some now) later final
  hardwarePreset : Regained System.hardwarePreset (some now) later final
  hardwareConfig : later.hardwareConfig = final.hardwareConfig
  packages : later.packages = final.packages

/-- A service that is read again, option by option. -/
structure ServiceAgrees (now : Option Service) (later final : Service) : Prop where
  enabled : Regained Service.enabled now later final
  options : ∀ key, Regained (·.options.get? key) now later final
  description : later.description = final.description
  knownOptions : later.knownOptions = final.knownOptions

/-- A user who is read again; the file of the machine says nothing about packages and identity. -/
structure UserAgrees (now : Option User) (later final : User) : Prop where
  description : Regained User.description now later final
  shell : Regained User.shell now later final
  extraGroups : Regained User.extraGroups now later final
  hashedPassword : Regained User.hashedPassword now later final
  packages : later.packages = final.packages
  gitName : later.gitName = final.gitName
  gitEmail : later.gitEmail = final.gitEmail

/-- Settings that have all been regained are as they were. -/
theorem SystemAgrees.eq {later final : System} (agrees : SystemAgrees final later final)
    (services : later.services = final.services) : later = final := by
  have hostname := agrees.hostname.eq
  have timezone := agrees.timezone.eq
  have locale := agrees.locale.eq
  have keyboardLayout := agrees.keyboardLayout.eq
  have experimentalFeatures := agrees.experimentalFeatures.eq
  have bootloader := agrees.bootloader.eq
  have swapSize := agrees.swapSize.eq
  have hardwarePreset := agrees.hardwarePreset.eq
  -- The last two fields are the same from the beginning.
  obtain ⟨-, -, -, -, -, -, -, -, hardwareConfig, packages⟩ := agrees
  cases later
  cases final
  simp_all

/-- A service that the first reading has not met agrees with whatever it meets. -/
theorem ServiceAgrees.of_none {later final : Service} (agrees : ServiceAgrees none later final)
    (now : Option Service) : ServiceAgrees now later final :=
  -- Nothing was read last, so every field was regained by being kept.
  { agrees with
    enabled := agrees.enabled.of_none now
    options := fun key => (agrees.options key).of_none now }

/-- A user whom the first reading has not met agrees with whomever it meets. -/
theorem UserAgrees.of_none {later final : User} (agrees : UserAgrees none later final)
    (now : Option User) : UserAgrees now later final :=
  -- Whatever has been regained without the first reading is regained with it.
  { agrees with
    description := agrees.description.of_none now
    shell := agrees.shell.of_none now
    extraGroups := agrees.extraGroups.of_none now
    hashedPassword := agrees.hashedPassword.of_none now }

/-- A service in which all is regained is as it was. -/
theorem ServiceAgrees.eq {later final : Service} (agrees : ServiceAgrees (some final) later final)
    (named : later.name = final.name) : later = final := by
  -- All options agree, so the tables of options are one.
  have options : later.options = final.options :=
    Table.eq_of_get?_eq fun key => (agrees.options key).eq
  have enabled := agrees.enabled.eq
  have description := agrees.description
  have knownOptions := agrees.knownOptions
  cases later
  cases final
  simp_all

/-- A line of the service's block changes the service in the same way in both readings. -/
theorem ServiceAgrees.readServiceLine {now later final : Service} (clean : List Char)
    (agrees : ServiceAgrees (some now) later final) :
    ServiceAgrees (some (readServiceLine clean now)) (readServiceLine clean later) final := by
  unfold SystemFile.readServiceLine
  split
  · exact agrees
  · rename_i key value _
    split
    · exact { agrees with enabled := .inr rfl }
    · split
      · rename_i literal _
        -- Only the option under the key of the line is set; the others are as they were.
        refine { agrees with options := fun other => ?_ }
        have before := agrees.options other
        simp only [Regained, Option.map_some, Table.get?_insert] at before ⊢
        split
        · exact .inr rfl
        · exact before
      · exact agrees

/-- A line of the user's block changes the user in the same way in both readings. -/
theorem UserAgrees.readUserLine {now later final : User} (clean : List Char)
    (agrees : UserAgrees (some now) later final) :
    UserAgrees (some (readUserLine clean now)) (readUserLine clean later) final := by
  unfold SystemFile.readUserLine
  -- The field that the line sets agrees from now on, and the others agree as before.
  split
  · exact { agrees with description := .inr rfl }
  · split
    · exact { agrees with hashedPassword := .inr rfl }
    · split
      · exact { agrees with extraGroups := .inr rfl }
      · split
        · exact { agrees with shell := .inr rfl }
        · exact agrees

/-- The users whose places no longer change: those from the first claim on. -/
def placedUsers (progress : Progress) : List User :=
  if progress.seen = [] then [] else progress.model.users

/-- The open block is that of an item that is there. -/
def InPlace (progress : Progress) : Prop :=
  -- A block that is passed over has no place in the model.
  match progress.context with
  | .user (some index) _ => index < (placedUsers progress).length
  | .service index _ => index < progress.model.system.services.length
  | _ => True

/-- Outside of blocks there is nothing to be in place. -/
theorem inPlace_of_top {progress : Progress} (top : progress.context = .top) : InPlace progress := by
  -- Outside of blocks there is no place to be in.
  rw [InPlace, top]
  trivial

/-- A second reading that has come as far as a first one, which ends with a given model. -/
structure Repeats (placeholder : String) (final : Model) (now later : Progress) : Prop where
  context : later.context = now.context
  seen : later.seen = now.seen
  nixVersion : later.model.nixVersion = final.nixVersion
  sources : later.model.sources = final.sources
  system : SystemAgrees now.model.system later.model.system final.system
  services : Follows Service.name ServiceAgrees now.model.system.services
    later.model.system.services final.system.services
  users : Follows User.username UserAgrees (placedUsers now) later.model.users final.users
  fixed : Fixed placeholder now
  inPlace : InPlace now

/-- All that a first reading has met is there by name in the end. -/
structure Within (placeholder : String) (final : Model) (now : Progress) : Prop where
  packages : now.model.system.packages.map (·.name) ⊆ final.system.packages.map (·.name)
  services : now.model.system.services.map (·.name) <+: final.system.services.map (·.name)
  users : now.seen ≠ [] → now.model.users.map (·.username) <+: final.users.map (·.username)
  unclaimed : placeholder ∉ now.seen

/-- What the first reading has met before is also there in the end. -/
theorem Within.of_grows {final : Model} {now next : Progress} (within : Within placeholder final next)
    (grows : Grows placeholder now next) (fixed : Fixed placeholder now) :
    Within placeholder final now := by
  refine ⟨?_, grows.services.trans within.services, fun opened => ?_,
    fun claimed => within.unclaimed (grows.seen.subset claimed)⟩
  · exact List.Subset.trans (grows.packages.map _).subset within.packages
  · -- Users are only fixed once a block is opened, and an opened block stays opened.
    have still : next.seen ≠ [] := fun none => opened (List.prefix_nil.1 (none ▸ grows.seen))
    exact (grows.users (fixed opened)).trans (within.users still)

/-- A line that opens or closes a block leaves to the top or stays in the same block. -/
theorem eq_top_or_of_nested {clean : List Char} {depth : Nat} {inside : Nat → Context}
    {context : Context} (change : nested clean depth inside = some context) :
    context = .top ∨ ∃ depth, context = inside depth := by
  unfold nested at change
  -- Only a closing brace at depth zero leaves the block.
  split at change
  · split at change
    · exact .inl (Option.some.inj change).symm
    · exact .inr ⟨_, (Option.some.inj change).symm⟩
  · split at change
    · exact .inr ⟨_, (Option.some.inj change).symm⟩
    · cases change

namespace Repeats

variable {final : Model} {now later : Progress}

/-- A list of packages adds nothing in the second reading. -/
theorem readPackages (repeats : Repeats placeholder final now later) (part : List Char × Bool)
    (within : Within placeholder final (readPackages renames now part)) :
    Repeats placeholder final (readPackages renames now part) (readPackages renames later part) := by
  -- The packages named here are there in the end, and the second reading begins with the end.
  have names : (collectPackages renames now.model.system.packages part.1).map (·.name) ⊆
      later.model.system.packages.map (·.name) := repeats.system.packages ▸ within.packages
  have same : collectPackages renames later.model.system.packages part.1 =
      later.model.system.packages := collectPackages_of_subset names
  have inPlace : InPlace (SystemFile.readPackages renames now part) := by
    unfold SystemFile.readPackages InPlace
    dsimp only
    cases part.2 <;> trivial
  unfold SystemFile.readPackages at inPlace ⊢
  exact { repeats with
    context := rfl
    system := { repeats.system with packages := same.trans repeats.system.packages }
    inPlace }

/-- A user's block leads to the same user in both readings. -/
theorem openUser (repeats : Repeats placeholder final now later) {statement : Statement}
    (opens : OpensUser now statement name)
    (within : Within placeholder final (openUser placeholder now name)) :
    Repeats placeholder final (openUser placeholder now name) (openUser placeholder later name) := by
  have grows : Grows placeholder now (SystemFile.openUser placeholder now name) :=
    grows_of_change (@change_openUser .empty placeholder _ _ _ opens)
  have fixed := grows.fixed repeats.fixed within.unclaimed
  -- A block that is opened again is passed over in both readings.
  by_cases again : name ∈ now.seen
  · have againLater : name ∈ later.seen := repeats.seen ▸ again
    rw [openUser_of_mem again] at fixed ⊢
    rw [openUser_of_mem againLater]
    exact { repeats with context := rfl, seen := repeats.seen, fixed, inPlace := trivial }
  · have newLater : name ∉ later.seen := repeats.seen ▸ again
    rw [openUser_of_not_mem again] at within fixed ⊢
    -- Otherwise the first reading claims a place, and the second one finds it by the name.
    have opened : now.seen ++ [name] ≠ [] := by simp
    have front : (claimUser now.model.users name placeholder).2.map (·.username) <+:
        later.model.users.map (·.username) := repeats.users.names ▸ within.users opened
    have before : placedUsers now <+: (claimUser now.model.users name placeholder).2 := by
      unfold placedUsers
      split
      · exact List.nil_prefix
      · exact (repeats.fixed ‹_›).prefix_claimUser name
    have users := repeats.users.extend before fun now _ _ agrees => agrees.of_none now
    rw [openUser_of_not_mem newLater, claimUser_of_front front, repeats.seen]
    refine { repeats with context := rfl, seen := rfl, users := ?_, fixed, inPlace := ?_ }
    · rw [placedUsers, if_neg opened]
      exact users
    · rw [InPlace, placedUsers, if_neg opened]
      exact lt_length_of_findIdx? (findIdx?_claimUser now.model.users name placeholder)

/-- A service's block leads to the same service in both readings. -/
theorem openService (repeats : Repeats placeholder final now later) (name : String)
    (within : Within placeholder final (openService now name)) :
    Repeats placeholder final (openService now name) (openService later name) := by
  -- Whatever place the first reading claims, the same name stands there in the second one.
  have front : (claimService now.model.system.services name).2.map (·.name) <+:
      later.model.system.services.map (·.name) := repeats.services.names ▸ within.services
  have services := repeats.services.extend (prefix_claimService _ name)
    fun now _ _ agrees => agrees.of_none now
  unfold SystemFile.openService
  rw [claimService_of_front front]
  exact { repeats with
    context := rfl
    system := { repeats.system with }
    services
    inPlace := lt_length_of_findIdx? (findIdx?_claimService now.model.system.services name) }

/-- A service is switched on in both readings. -/
theorem enableService (repeats : Repeats placeholder final now later) (name : String)
    (top : now.context = .top) (within : Within placeholder final (enableService now name)) :
    Repeats placeholder final (enableService now name) (enableService later name) := by
  have keeps (service : Service) : Service.name { service with enabled := true } = service.name := rfl
  -- The place that is claimed is among the services of the later reading too.
  have front : (claimService now.model.system.services name).2.map (·.name) <+:
      later.model.system.services.map (·.name) := by
    have names := within.services
    rw [SystemFile.enableService] at names
    rw [repeats.services.names]
    exact (map_modify_of_keeps _ keeps) ▸ names
  -- The service is claimed at one place in both readings, and switched on there.
  have services := repeats.services.extend (prefix_claimService _ name)
    fun now _ _ agrees => agrees.of_none now
  have switched := services.modify keeps
    (lt_length_of_findIdx? (findIdx?_claimService now.model.system.services name))
    fun _ _ _ agrees => { agrees with enabled := .inr rfl }
  unfold SystemFile.enableService
  rw [claimService_of_front front]
  exact { repeats with
    system := { repeats.system with }
    services := switched
    inPlace := inPlace_of_top top }

/-- A line outside of lists and blocks does the same in both readings. -/
theorem readTop (repeats : Repeats placeholder final now later) (statement : Statement)
    (top : now.context = .top)
    (within : Within placeholder final (readTop renames placeholder now statement)) :
    Repeats placeholder final (readTop renames placeholder now statement)
      (readTop renames placeholder later statement) := by
  unfold SystemFile.readTop at within ⊢
  generalize meant : classify statement.clean = meaning at within ⊢
  -- Each setting is regained by its own line, and claims have their own lemmas.
  cases meaning with
  | hostname => exact { repeats with system := { repeats.system with hostname := .inr rfl } }
  | timezone => exact { repeats with system := { repeats.system with timezone := .inr rfl } }
  | locale => exact { repeats with system := { repeats.system with locale := .inr rfl } }
  | keyboardLayout =>
    exact { repeats with system := { repeats.system with keyboardLayout := .inr rfl } }
  | hardwarePreset =>
    exact { repeats with system := { repeats.system with hardwarePreset := .inr rfl } }
  | experimentalFeatures =>
    exact { repeats with system := { repeats.system with experimentalFeatures := .inr rfl } }
  | swapSize => exact { repeats with system := { repeats.system with swapSize := .inr rfl } }
  | bootloader => exact { repeats with system := { repeats.system with bootloader := .inr rfl } }
  | serviceEnable name => exact repeats.enableService name top within
  | serviceStart name => exact repeats.openService name within
  | packagesStart => exact repeats.readPackages _ within
  | userStart name => exact repeats.openUser ⟨top, meant⟩ within
  | nothing => exact repeats

/-- A line in the block of a user does the same in both readings. -/
theorem readUser (repeats : Repeats placeholder final now later) {index : Option Nat} {depth : Nat}
    (inside : now.context = .user index depth) (clean : List Char) :
    Repeats placeholder final (readUser now index depth clean) (readUser later index depth clean) := by
  have inPlace := repeats.inPlace
  rw [InPlace, inside] at inPlace
  unfold SystemFile.readUser
  -- Braces are counted in both readings alike; only a line at depth zero changes the user.
  cases change : nested clean depth (.user index) with
  | some context =>
    refine { repeats with context := rfl, inPlace := ?_ }
    rcases eq_top_or_of_nested change with rfl | ⟨depth, rfl⟩
    · trivial
    · cases index with
      | none => trivial
      | some index => exact inPlace
  | none =>
    cases index with
    | none => exact repeats
    | some index =>
      dsimp only
      split
      · -- The user stands at a place that an opened block has claimed.
        have opened : now.seen ≠ [] := by
          intro none
          simp [placedUsers, none] at inPlace
        have users := repeats.users.modify (username_readUserLine clean) inPlace
          fun _ _ _ agrees => agrees.readUserLine clean
        have kept (user : User) := username_readUserLine clean user
        have names : (now.model.users.modify index (SystemFile.readUserLine clean)).map
            (·.username) = now.model.users.map (·.username) := map_modify_of_keeps index kept
        rw [placedUsers, if_neg opened] at users inPlace
        refine { repeats with users := ?_, fixed := fun _ => ?_, inPlace := ?_ }
        · rw [placedUsers, if_neg opened]
          exact users
        · exact (repeats.fixed opened).of_front (names ▸ List.prefix_rfl)
        · rw [InPlace, inside, placedUsers, if_neg opened, List.length_modify]
          exact inPlace
      · exact repeats

/-- A line in the block of a service does the same in both readings. -/
theorem readService (repeats : Repeats placeholder final now later) {index depth : Nat}
    (inside : now.context = .service index depth) (clean : List Char) :
    Repeats placeholder final (readService now index depth clean)
      (readService later index depth clean) := by
  have inPlace := repeats.inPlace
  rw [InPlace, inside] at inPlace
  unfold SystemFile.readService
  -- A brace changes the context only, and any other line at depth zero the service.
  cases change : nested clean depth (.service index) with
  | some context =>
    refine { repeats with context := rfl, inPlace := ?_ }
    rcases eq_top_or_of_nested change with rfl | ⟨depth, rfl⟩
    · trivial
    · exact inPlace
  | none =>
    dsimp only
    split
    · have services := repeats.services.modify (name_readServiceLine clean) inPlace
        fun _ _ _ agrees => agrees.readServiceLine clean
      refine { repeats with system := { repeats.system with }, services, inPlace := ?_ }
      rw [InPlace]
      simpa only [withSystem, inside, List.length_modify] using inPlace
    · exact repeats

/-- A statement does the same in both readings. -/
theorem readStatement (repeats : Repeats placeholder final now later) (statement : Statement)
    (within : Within placeholder final (readStatement renames placeholder now statement)) :
    Repeats placeholder final (readStatement renames placeholder now statement)
      (readStatement renames placeholder later statement) := by
  unfold SystemFile.readStatement at within ⊢
  rw [repeats.context]
  -- The context is the same in both readings, and tells what the statement means.
  cases here : now.context with
  | top => exact repeats.readTop statement here (by simpa only [here] using within)
  | packages => exact repeats.readPackages _ (by simpa only [here] using within)
  | user index depth => exact repeats.readUser here statement.clean
  | service index depth => exact repeats.readService here statement.clean

/-- Both readings stay together to the end. -/
theorem foldl (found : List Statement) (repeats : Repeats placeholder final now later)
    (within : Within placeholder final
      (found.foldl (SystemFile.readStatement renames placeholder) now)) :
    Repeats placeholder final (found.foldl (SystemFile.readStatement renames placeholder) now)
      (found.foldl (SystemFile.readStatement renames placeholder) later) := by
  induction found generalizing now later with
  | nil => exact repeats
  | cons statement rest ih =>
    have grows := @grows_foldl renames placeholder rest
      (SystemFile.readStatement renames placeholder now statement)
    -- Names are only added, so what holds of all names in the end holds of those of now.
    have unclaimed : placeholder ∉
        (SystemFile.readStatement renames placeholder now statement).seen :=
      fun claimed => within.unclaimed (grows.seen.subset claimed)
    have fixed := (grows_readStatement now statement).fixed repeats.fixed unclaimed
    exact ih (repeats.readStatement statement (within.of_grows grows fixed)) within

end Repeats

/-- What the reading of a text comes to, in the end. -/
def finalProgress (renames : Renames) (placeholder : String) (text : List Char) (model : Model) :
    Progress :=
  -- The text is read from its beginning, outside of blocks.
  (statements text).foldl (readStatement renames placeholder) ⟨model, .top, []⟩

/-- The context without the place of its item. -/
def Context.outline : Context → Context
  -- The depth stays, since it decides how the next line is read.
  | .user index depth => .user (index.map fun _ => 0) depth
  | .service _ depth => .service 0 depth
  | context => context

/-- Two readings have seen the blocks of the same users, and the same kind of block is open. -/
def Alike (first second : Progress) : Prop :=
  first.seen = second.seen ∧ first.context.outline = second.context.outline

/-- It does not depend on the model whether a user's block is the first one. -/
theorem alike_openUser {first second : Progress} (name : String) (seen : first.seen = second.seen) :
    Alike (openUser placeholder first name) (openUser placeholder second name) := by
  -- Whether the block is passed over depends on the blocks seen before.
  by_cases again : name ∈ first.seen
  · rw [openUser_of_mem again, openUser_of_mem (seen ▸ again)]
    exact ⟨seen, rfl⟩
  · rw [openUser_of_not_mem again, openUser_of_not_mem (seen ▸ again), seen]
    exact ⟨rfl, rfl⟩

/-- On a line outside of blocks it does not depend on the model which block is opened. -/
theorem alike_readTop {first second : Progress} (statement : Statement) (alike : Alike first second) :
    Alike (readTop renames placeholder first statement)
      (readTop renames placeholder second statement) := by
  obtain ⟨seen, outline⟩ := alike
  unfold readTop
  -- Three kinds of lines open something, and they do so whatever the model is.
  cases classify statement.clean with
  | packagesStart => exact ⟨seen, rfl⟩
  | serviceStart name => exact ⟨seen, rfl⟩
  | userStart name => exact alike_openUser name seen
  | hostname | timezone | locale | keyboardLayout | hardwarePreset | experimentalFeatures
  | swapSize | bootloader | serviceEnable | nothing => exact ⟨seen, outline⟩

/-- A line of a user's block opens no other block, and closes at most the block itself. -/
theorem follow_readUser (progress : Progress) (index : Option Nat) (depth : Nat)
    (clean : List Char) :
    (readUser progress index depth clean).seen = progress.seen ∧
      (readUser progress index depth clean).context =
        (nested clean depth (.user index)).getD progress.context := by
  unfold readUser
  -- The braces decide on the context, and the user on nothing.
  cases nested clean depth (.user index) with
  | some context => exact ⟨rfl, rfl⟩
  | none =>
    cases index with
    | none => exact ⟨rfl, rfl⟩
    | some index =>
      dsimp only
      split <;> exact ⟨rfl, rfl⟩

/-- A line of a service's block opens no other block, and closes at most the block itself. -/
theorem follow_readService (progress : Progress) (index depth : Nat) (clean : List Char) :
    (readService progress index depth clean).seen = progress.seen ∧
      (readService progress index depth clean).context =
        (nested clean depth (.service index)).getD progress.context := by
  unfold readService
  -- The braces decide on the context, and the service on nothing.
  cases nested clean depth (.service index) with
  | some context => exact ⟨rfl, rfl⟩
  | none =>
    dsimp only
    split <;> exact ⟨rfl, rfl⟩

/-- It does not depend on the place of the item how a line opens or closes a block inside its block. -/
theorem outline_getD_nested {clean : List Char} {depth : Nat} {inside other : Nat → Context}
    {first second : Context} (same : ∀ depth, (inside depth).outline = (other depth).outline)
    (outline : first.outline = second.outline) :
    ((nested clean depth inside).getD first).outline =
      ((nested clean depth other).getD second).outline := by
  -- A brace that closes the block leads to the top, wherever the block belongs.
  unfold nested
  split
  · split
    · rfl
    · exact same _
  · split
    · exact same _
    · exact outline

/-- It does not depend on the model which blocks are opened and closed. -/
theorem alike_readStatement {first second : Progress} (statement : Statement)
    (alike : Alike first second) :
    Alike (readStatement renames placeholder first statement)
      (readStatement renames placeholder second statement) := by
  obtain ⟨seen, outline⟩ := alike
  unfold readStatement
  -- The contexts are of the same kind on both sides, so the other pairs are contradictory.
  cases here : first.context with
  | top =>
    cases there : second.context with
    | top => exact alike_readTop statement ⟨seen, outline⟩
    | _ => simp [here, there, Context.outline] at outline
  | packages =>
    cases there : second.context with
    | packages => exact ⟨seen, rfl⟩
    | _ => simp [here, there, Context.outline] at outline
  | user index depth =>
    cases there : second.context with
    | user other otherDepth =>
      obtain ⟨sameIndex, rfl⟩ : index.map (fun _ => 0) = other.map (fun _ => 0) ∧
          depth = otherDepth := by
        simpa [here, there, Context.outline] using outline
      have same (depth : Nat) : (Context.user index depth).outline =
          (Context.user other depth).outline := by
        rw [Context.outline, Context.outline, sameIndex]
      obtain ⟨firstSeen, firstContext⟩ := follow_readUser first index depth statement.clean
      obtain ⟨secondSeen, secondContext⟩ := follow_readUser second other depth statement.clean
      refine ⟨firstSeen.trans (seen.trans secondSeen.symm), ?_⟩
      rw [firstContext, secondContext]
      exact outline_getD_nested same outline
    | _ => simp [here, there, Context.outline] at outline
  | service index depth =>
    cases there : second.context with
    | service other otherDepth =>
      obtain rfl : depth = otherDepth := by
        simpa [here, there, Context.outline] using outline
      obtain ⟨firstSeen, firstContext⟩ := follow_readService first index depth statement.clean
      obtain ⟨secondSeen, secondContext⟩ := follow_readService second other depth statement.clean
      refine ⟨firstSeen.trans (seen.trans secondSeen.symm), ?_⟩
      rw [firstContext, secondContext]
      exact outline_getD_nested (fun _ => rfl) outline
    | _ => simp [here, there, Context.outline] at outline

/-- Readings that are alike stay alike. -/
theorem alike_foldl (found : List Statement) {first second : Progress} (alike : Alike first second) :
    Alike (found.foldl (readStatement renames placeholder) first)
      (found.foldl (readStatement renames placeholder) second) := by
  -- Each statement keeps the two progresses alike.
  induction found generalizing first second with
  | nil => exact alike
  | cons statement rest ih => exact ih (alike_readStatement statement alike)

/-- Of a model it does not depend which users' blocks are opened. -/
theorem seen_finalProgress (text : List Char) (first second : Model) :
    (finalProgress renames placeholder text first).seen =
      (finalProgress renames placeholder text second).seen := by
  -- The models differ at the start, and what is opened does not depend on them.
  have begins : Alike ⟨first, .top, []⟩ ⟨second, .top, []⟩ := ⟨rfl, rfl⟩
  exact (alike_foldl (statements text) begins).1

/-- The users whose blocks a text opens. -/
def openedUsers (renames : Renames) (placeholder : String) (text : List Char) : List String :=
  (finalProgress renames placeholder text .initial).seen

/--
A second reading changes nothing but the fields that somebody else has changed since the first one.

That may be fields of users, who have their names still.
-/
theorem exists_read_again {text : List Char} {base final : Model}
    (unclaimed : placeholder ∉ openedUsers renames placeholder text)
    (system : final.system = (read renames placeholder text base).system)
    (names : final.users.map (·.username) =
      (read renames placeholder text base).users.map (·.username)) :
    ∃ users, read renames placeholder text final = { final with users } ∧
      Follows User.username UserAgrees (read renames placeholder text base).users users final.users := by
  rw [openedUsers, seen_finalProgress text _ base] at unclaimed
  -- All that the first reading meets is there in the end, because the end is its result.
  have within : Within placeholder final (finalProgress renames placeholder text base) :=
    ⟨system ▸ List.Subset.refl _, system ▸ List.prefix_rfl, fun _ => names ▸ List.prefix_rfl, unclaimed⟩
  have begins : Repeats placeholder final ⟨base, .top, []⟩ ⟨final, .top, []⟩ :=
    { context := rfl
      seen := rfl
      nixVersion := rfl
      sources := rfl
      system := ⟨.inl rfl, .inl rfl, .inl rfl, .inl rfl, .inl rfl, .inl rfl, .inl rfl, .inl rfl, rfl,
        rfl⟩
      services := .refl (fun _ _ => ⟨.inl rfl, fun _ => .inl rfl, rfl, rfl⟩) _ _
      users := .refl (fun _ _ => ⟨.inl rfl, .inl rfl, .inl rfl, .inl rfl, rfl, rfl, rfl⟩) _ _
      fixed := fun opened => absurd rfl opened
      inPlace := trivial }
  have ends : Repeats placeholder final (finalProgress renames placeholder text base)
      (finalProgress renames placeholder text final) := begins.foldl (statements text) within
  change final.system = (finalProgress renames placeholder text base).model.system at system
  change ∃ users, (finalProgress renames placeholder text final).model = { final with users } ∧
    Follows User.username UserAgrees (finalProgress renames placeholder text base).model.users users
      final.users
  -- From here on only the last states of both readings matter.
  generalize finalProgress renames placeholder text base = first at ends system within ⊢
  generalize finalProgress renames placeholder text final = second at ends ⊢
  have front : placedUsers first <+: first.model.users := by
    rw [placedUsers]
    split
    · exact List.nil_prefix
    · exact List.prefix_rfl
  -- The settings are regained with those of the end itself, so none has been lost.
  have settings := ends.system
  have services := ends.services
  rw [← system] at settings services
  have same : second.model.system = final.system :=
    settings.eq (services.eq fun _ _ agrees named => agrees.eq named)
  refine ⟨second.model.users, ?_, ends.users.extend front fun now _ _ agrees => agrees.of_none now⟩
  rw [← same, ← ends.nixVersion, ← ends.sources]

end NixKeeper.Files.SystemFile
