import NixKeeper.Proofs.Files.Repetition
import NixKeeper.Proofs.Files.SystemFile.Usernames
import NixKeeper.Proofs.Model.Sound

/-!
Reading a file never breaks a model, whatever the text says.

Each kind of change that a statement can make leaves a sound model sound and extends it, and so does a
whole reading: what the model has keeps its place, and at most a placeholder who stands alone is renamed.
-/

namespace NixKeeper

namespace Files

variable {renames : Renames} {placeholder name : String}

/-- Packages are known by different names after one more is added. -/
theorem map_name_addPackage (packages : List Package) (package : Package) :
    (addPackage packages package).2.map (·.name) =
      withName (packages.map (·.name)) package.name := by
  -- A known name adds nothing on either side.
  by_cases known : package.name ∈ packages.map (·.name)
  · rw [addPackage_of_known known, withName_of_mem known]
  · have absent : packages.any (·.name == package.name) = false := by simpa using known
    rw [addPackage, absent, if_neg Bool.false_ne_true, withName_of_not_mem known, List.map_append,
      List.map_singleton]

/-- Packages that are read from a list are known by different names. -/
theorem nodup_collectPackages {packages : List Package} (distinct : (packages.map (·.name)).Nodup)
    (text : List Char) : ((collectPackages renames packages text).map (·.name)).Nodup := by
  rw [collectPackages]
  -- The words one by one; each enters a name.
  induction packageWords text generalizing packages with
  | nil => exact distinct
  | cons word rest ih =>
    refine ih ?_
    rw [map_name_addPackage]
    exact nodup_withName distinct _

namespace SystemFile

/-- Of the services only the names matter for the names after a claim. -/
theorem map_name_claimService (services : List Service) (name : String) :
    (claimService services name).2.map (·.name) = withName (services.map (·.name)) name := by
  rw [claimService]
  -- A service is found by its name, or put behind under it.
  cases found : services.findIdx? (·.name == name) with
  | some index => rw [withName_of_mem (mem_map_of_findIdx? found)]
  | none =>
    rw [withName_of_not_mem (not_mem_map_of_findIdx? found), List.map_append, List.map_singleton,
      Service.named]

/-- What holds of all services and of a new one holds of all after a claim. -/
theorem forall_mem_claimService {services : List Service} {good : Service → Prop}
    (all : ∀ service ∈ services, good service)
    (new : good { Service.named name with enabled := false }) :
    ∀ service ∈ (claimService services name).2, good service := by
  rw [claimService]
  -- The services stay as they are, or the new one goes to the end.
  split
  · exact all
  · exact List.forall_mem_append.2 ⟨all, List.forall_mem_singleton.2 new⟩

/-- What holds of all users, of a renamed one and of a new one holds of all after a claim. -/
theorem forall_mem_claimUser {users : List User} {good : User → Prop}
    (all : ∀ user ∈ users, good user) (new : good (.named name))
    (renamed : ∀ user ∈ users, good { user with username := name, description := name }) :
    ∀ user ∈ (claimUser users name placeholder).2, good user := by
  have behind : ∀ user ∈ users ++ [.named name], good user :=
    List.forall_mem_append.2 ⟨all, List.forall_mem_singleton.2 new⟩
  unfold claimUser
  split
  · exact all
  · split
    · -- A user who stands alone is renamed or followed by the new one.
      split
      · exact List.forall_mem_singleton.2 (renamed _ (List.mem_singleton.2 rfl))
      · exact behind
    · exact behind

/-- Users stay where one is claimed, who may be the placeholder renamed. -/
theorem usersStay_claimUser (users : List User) (name placeholder : String) :
    UsersStay placeholder users (claimUser users name placeholder).2 := by
  unfold claimUser
  split
  · exact .of_front List.prefix_rfl
  · split
    · rename_i only _
      split
      · -- The user who stands alone is the placeholder, who takes the name.
        rename_i isPlaceholder
        intro index user there
        obtain ⟨rfl, rfl⟩ : index = 0 ∧ only = user := by
          simpa [List.getElem?_singleton] using there
        exact ⟨_, rfl, List.prefix_rfl, .inr ⟨rfl, isPlaceholder⟩⟩
      · exact .of_front (List.prefix_append [only] _)
    · exact .of_front (List.prefix_append _ _)

/-- Somebody is there after a claim. -/
theorem claimUser_ne_nil (users : List User) (name placeholder : String) :
    (claimUser users name placeholder).2 ≠ [] := by
  intro empty
  -- The user that was claimed would be found in no list.
  have found := findIdx?_claimUser users name placeholder
  rw [empty] at found
  cases found

/-- A line of a service's block does not set the switch as an option. -/
theorem enableOption_not_mem_readServiceLine {service : Service}
    (free : enableOption ∉ service.options.keys) (clean : List Char) :
    enableOption ∉ (readServiceLine clean service).options.keys := by
  unfold readServiceLine
  split
  · exact free
  · split
    · exact free
    · split
      · -- The key that is set is another one, since the switch is read in another way.
        rename_i other _ _ _
        intro within
        rcases Table.eq_or_mem_of_mem_keys_insert within with same | before
        · exact other same.symm
        · exact free before
      · exact free

/-- A line of a user's block says nothing about packages. -/
theorem packages_readUserLine (clean : List Char) (user : User) :
    (readUserLine clean user).packages = user.packages := by
  unfold readUserLine
  -- Whatever the line assigns, it is another field of the user.
  split
  · rfl
  · split
    · rfl
    · split
      · rfl
      · split <;> rfl

variable {now next : Progress} {statement : Statement}

/-- A statement extends the model. -/
theorem extends_of_change (change : Change renames placeholder now statement next.model next.seen) :
    now.model.Extends placeholder next.model := by
  have grows := grows_of_change change
  refine ⟨grows.packages, grows.services, ?_⟩
  -- What is left are the users, whom two kinds of change concern.
  obtain ⟨model, context, seen⟩ := next
  cases change with
  | user name opens new => exact usersStay_claimUser _ _ _
  | userLine index =>
    refine .modify _ _ fun user => ⟨username_readUserLine _ user, ?_⟩
    exact (packages_readUserLine statement.clean user).symm ▸ List.prefix_rfl
  | settings | packages | service | serviceSwitch | serviceLine => exact .of_front List.prefix_rfl

/-- A statement leaves a sound model sound. -/
theorem sound_of_change (sound : now.model.Sound)
    (change : Change renames placeholder now statement next.model next.seen) : next.model.Sound := by
  obtain ⟨model, context, seen⟩ := next
  have inhabited := (Model.validate_eq_ok_iff.1 sound.valid).inhabited
  have claimed (name : String) :
      ((claimService now.model.system.services name).2.map (·.name)).Nodup := by
    rw [map_name_claimService]
    exact nodup_withName sound.services name
  have claimedSwitches (name : String) : ∀ service ∈ (claimService now.model.system.services name).2,
      enableOption ∉ service.options.keys :=
    forall_mem_claimService sound.switches List.not_mem_nil
  -- Every kind of change touches one list of the model, and keeps its names apart.
  cases change with
  | settings system packages services hardware preset =>
    exact sound.withSystem (services ▸ sound.switches) (services ▸ sound.services)
      (packages ▸ sound.packages)
  | packages text =>
    exact sound.withSystem sound.switches sound.services (nodup_collectPackages sound.packages text)
  | user name opens new =>
    -- The rule for the line takes no empty name.
    have named := ne_empty_of_classify opens.2
    refine sound.withUsers (claimUser_ne_nil _ _ _) ?_ ?_
    · exact forall_mem_claimUser sound.good ⟨named, List.nodup_nil⟩
        fun user among => ⟨named, (sound.good user among).2⟩
    · rw [map_username_claimUser]
      exact nodup_claimName sound.usernames name
  | userLine index =>
    have keeps := username_readUserLine statement.clean
    refine sound.withUsers (by simpa using inhabited) ?_ ?_
    · refine forall_mem_modify sound.good index fun user good => ?_
      rw [keeps, packages_readUserLine]
      exact good
    · rw [map_modify_of_keeps index keeps]
      exact sound.usernames
  | service name => exact sound.withServices (claimedSwitches name) (claimed name)
  | serviceSwitch name =>
    refine sound.withServices (forall_mem_modify (claimedSwitches name) _ fun _ free => free) ?_
    rw [map_name_switched]
    exact claimed name
  | serviceLine index =>
    refine sound.withServices ?_ ?_
    · exact forall_mem_modify sound.switches index fun _ free =>
        enableOption_not_mem_readServiceLine free _
    · rw [map_modify_of_keeps index (name_readServiceLine statement.clean)]
      exact sound.services

/-- All statements together leave a sound model sound, and extend it. -/
theorem sound_foldl (sound : now.model.Sound) (found : List Statement) :
    (found.foldl (readStatement renames placeholder) now).model.Sound ∧
      now.model.Extends placeholder (found.foldl (readStatement renames placeholder) now).model := by
  -- Along the statements; soundness is needed for each next one.
  induction found generalizing now with
  | nil => exact ⟨sound, .refl _⟩
  | cons statement rest ih =>
    have change := change_readStatement renames placeholder now statement
    obtain ⟨still, extended⟩ := ih (sound_of_change sound change)
    exact ⟨still, (extends_of_change change).trans extended⟩

end SystemFile

namespace Manifest

/-- Of several sources of a name the first one is kept, so the names differ. -/
theorem nodup_foldl_readStatement (found : List Statement) {progress : Progress}
    (distinct : (progress.sources.map (·.name)).Nodup) :
    ((found.foldl readStatement progress).sources.map (·.name)).Nodup := by
  induction found generalizing progress with
  | nil => exact distinct
  | cons statement rest ih =>
    refine ih ?_
    rw [readStatement]
    split
    · exact distinct
    · split
      · exact distinct
      · split
        · exact distinct
        · -- A source is entered only if its name is free.
          rename_i source _ _ free
          have new : source.name ∉ progress.sources.map (·.name) := by
            simpa using (not_or.1 free).2
          have entered := nodup_withName distinct source.name
          rw [withName_of_not_mem new] at entered
          simpa using entered

/-- A manifest leaves a sound model sound, and extends it. -/
theorem sound_read {model : Model} (sound : model.Sound) (text : List Char) :
    (read text model).Sound ∧ model.Extends placeholder (read text model) := by
  rw [read]
  split
  · exact ⟨sound, .refl model⟩
  · -- The sources are read anew, and nothing else but the release changes.
    refine ⟨sound.withSources _ (nodup_foldl_readStatement _ List.nodup_nil), ?_⟩
    exact ⟨List.prefix_rfl, List.prefix_rfl, .of_front List.prefix_rfl⟩

end Manifest

namespace Home

/-- The packages of a user are known by different names after each statement. -/
theorem Change.nodup_packages {statement : Statement} {user next : User}
    (change : Change renames statement user next)
    (distinct : (user.packages.map (·.name)).Nodup) : (next.packages.map (·.name)).Nodup := by
  -- Only a list of packages touches the packages.
  cases change with
  | packages text => exact nodup_collectPackages distinct text
  | name | email | shell => exact distinct

/-- The packages of a user are known by different names in the end. -/
theorem nodup_packages_readUser {user : User} (distinct : (user.packages.map (·.name)).Nodup)
    (text : List Char) : ((readUser renames text user).packages.map (·.name)).Nodup := by
  -- Statement by statement the names of the packages stay apart.
  have each (found : List Statement) (progress : Progress)
      (distinct : (progress.user.packages.map (·.name)).Nodup) :
      ((found.foldl (readStatement renames) progress).user.packages.map (·.name)).Nodup := by
    induction found generalizing progress with
    | nil => exact distinct
    | cons statement rest ih =>
      exact ih _ ((change_readStatement renames progress statement).nodup_packages distinct)
  exact each (statements text) ⟨user, .top⟩ distinct

/-- A home leaves a sound model sound, and extends it, whoever the user is. -/
theorem sound_read {model : Model} (sound : model.Sound) (text : List Char) (index : Nat) :
    (read renames text model index).Sound ∧
      model.Extends placeholder (read renames text model index) := by
  -- Reading a home file changes one user, and not its name.
  have keeps (user : User) := (@sameAccount_readUser renames text user).username
  refine ⟨sound.withUsers ?_ ?_ ?_, List.prefix_rfl, List.prefix_rfl, ?_⟩
  · simpa using (Model.validate_eq_ok_iff.1 sound.valid).inhabited
  · refine forall_mem_modify sound.good index fun user good => ?_
    rw [keeps]
    exact ⟨good.1, nodup_packages_readUser good.2 text⟩
  · rw [map_modify_of_keeps index keeps]
    exact sound.usernames
  · exact .modify _ _ fun user => ⟨keeps user, packages_foldl (statements text) ⟨user, .top⟩⟩

end Home

/--
Whatever a text says, reading it as any of the files into a sound model leaves the model sound.

What the model has comes first in the result, and its users keep their places and, unless a placeholder
stands alone, their names. Sizes are computed with sixty-four bits as in a build that does not check for
overflow, and of those that are taken for the size of a swap file the 512 greatest wrap around to none.
-/
theorem reading_keeps_sound {base : Model} (sound : base.Sound) (renames : Renames)
    (placeholder : String) (text : List Char) (index : Nat) :
    (∀ next ∈ [Manifest.read text base, SystemFile.read renames placeholder text base,
        Home.read renames text base index], next.Sound ∧ base.Extends placeholder next) ∧
      ∀ mebibytes : UInt64, 1024 ≤ mebibytes →
        (SystemFile.swapGibibytes mebibytes = 0 ↔ UInt64.size - 512 ≤ mebibytes.toNat) := by
  -- A reading of the system file is a fold of statements, which keep the model sound.
  have system : (SystemFile.read renames placeholder text base).Sound ∧
      base.Extends placeholder (SystemFile.read renames placeholder text base) :=
    @SystemFile.sound_foldl renames placeholder ⟨base, .top, []⟩ sound (statements text)
  refine ⟨?_, fun mebibytes large => SystemFile.swapGibibytes_eq_zero_iff large⟩
  simp only [List.forall_mem_cons]
  exact ⟨Manifest.sound_read sound text, system, Home.sound_read sound text index,
    List.forall_mem_nil _⟩

/-- A region with statements of all kinds of files. -/
def mixedText : List Char :=
  -- A size of so many mebibytes wraps, and packages stand twice in a list.
  Managed.beginMarker ++
    ("\nextra.url = \"github:extra/extra\";\nusers.users.ada = \x7b\n\x7d;\n" ++
      "environment.systemPackages = with pkgs; [ vim fish ];\nservices.printing = \x7b\n" ++
      "enable = true;\nport = 631;\n\x7d;\nhome.packages = [ jq jq ];\n" ++
      "size = 18446744073709551615;\n").toList ++
    Managed.endMarker

/-- The initial model stays sound, also where the placeholder is renamed and a size wraps around. -/
theorem reading_keeps_sound_initial :
    Model.initial.Sound ∧
      (∀ next ∈ [Manifest.read mixedText .initial,
          SystemFile.read .builtin placeholderName mixedText .initial,
          Home.read .builtin mixedText .initial 0],
        next.Sound ∧ Model.initial.Extends placeholderName next) ∧
      (SystemFile.read .builtin placeholderName mixedText .initial).users.map (·.username) =
        ["ada"] ∧
      SystemFile.classify "size = 18446744073709551615".toList = .swapSize 0 := by
  -- Every part of soundness is decided for the initial model.
  have sound : Model.initial.Sound :=
    { valid := by decide
      usernames := by decide
      sources := by decide
      services := by decide
      packages := by decide
      userPackages := by decide }
  exact ⟨sound, (reading_keeps_sound sound .builtin placeholderName mixedText 0).1, by decide +kernel,
    by decide⟩

end Files

end NixKeeper
