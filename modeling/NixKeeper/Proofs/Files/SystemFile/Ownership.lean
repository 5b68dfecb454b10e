import NixKeeper.Proofs.Files.RoundTrip
import NixKeeper.Proofs.Files.SystemFile.Mentions
import NixKeeper.Proofs.Managed.Spared
import NixKeeper.Proofs.Model.Renames

/-! Which accounts written by hand a merge with the system file takes away: those of the users it mentions. -/

namespace NixKeeper.Files.SystemFile

open Managed (Region beginMarker endMarker definedUsers firsts mentions locate merge collapseBlankLines
  IsUserBlock IsOutside)

variable {renames : Renames}

/-- Every text of the model that the system file is made of stands on one line, without markers. -/
structure StringsFit (model : Model) : Prop where
  hostname : FitsLine model.system.hostname.toList
  timezone : FitsLine model.system.timezone.toList
  locale : FitsLine model.system.locale.toList
  keyboardLayout : FitsLine model.system.keyboardLayout.toList
  preset : ∀ preset ∈ model.system.hardwarePreset, FitsLine preset.toList
  features : ∀ feature ∈ model.system.experimentalFeatures, FitsLine feature.toList
  packages : ∀ package ∈ model.system.packages, FitsLine package.name.toList
  services : ∀ service ∈ model.system.services, FitsLine service.name.toList ∧
    ∀ entry ∈ service.options.entries, FitsLine entry.1.toList ∧ LiteralFits entry.2
  accounts : ∀ user ∈ model.users, AccountFits user

/-- What is written fits if the texts of the model and the current names do. -/
theorem StringsFit.linesFit {model : Model} (fits : StringsFit model)
    (current : renames.AllCurrent FitsLine) : LinesFit renames model where
  hostname := fits.hostname
  timezone := fits.timezone
  locale := fits.locale
  layout := current.optionPath (IsPlain.fits (by decide))
  keyboardLayout := fits.keyboardLayout
  preset := fits.preset
  features := fits.features
  -- What is written is a part of the name or a current name, and parts of fitting texts fit.
  packages := fun package among =>
    current.package (fun _ _ within all => all.of_part within) (fits.packages package among)
  services := fun service among => by
    obtain ⟨name, options⟩ := fits.services service (List.mem_of_mem_filter among)
    refine ⟨current.service name, fun entry isOption => ?_⟩
    obtain ⟨key, literal⟩ := options entry isOption
    exact ⟨current.option (fun _ _ within all => all.of_part within) key, literal⟩
  accounts := fits.accounts

/-- The usernames of a model, each once and in order. -/
def usernames (model : Model) : List String :=
  firsts (model.users.map (·.username))

/-- The first users of each name bear the usernames in order. -/
theorem map_username_distinctUsers (users : List User) :
    (distinctUsers users).map (·.username) = firsts (users.map (·.username)) := by
  -- The two folds keep the same names, whichever are known before.
  have kept (known : List User) : (users.foldl (fun kept user =>
      if kept.any (·.username == user.username) then kept else kept ++ [user]) known).map
        (·.username) = (users.map (·.username)).foldl (fun names name =>
          if names.contains name then names else names ++ [name]) (known.map (·.username)) := by
    induction users generalizing known with
    | nil => rfl
    | cons user rest ih =>
      have same : (known.map (·.username)).contains user.username =
          known.any (·.username == user.username) := by
        rw [List.contains_eq_any_beq, List.any_map]
        exact List.any_congr rfl fun other => BEq.comm
      rw [List.foldl_cons, List.map_cons, List.foldl_cons, ih, same]
      split <;> simp
  exact kept []

/-- The region of the system file mentions the users that the model mentions. -/
theorem exists_locate_text {model : Model} (fits : LinesFit renames model) :
    ∃ fresh, locate (text renames model) = some fresh ∧
      mentions fresh.managed = modelMentions renames model := by
  have fit : AllFit (indent (line notice ++ regionLines renames model)) := by
    rw [allFit_indent, allFit_append]
    exact ⟨allFit_notice, allFit_regionLines fits⟩
  have noMarker {marker : List Char} (isMarker : marker ∈ [beginMarker, endMarker]) :
      ¬ marker <:+: render opening :=
    not_infix_of_hash_not_mem isMarker hash_not_mem_render_opening
  refine ⟨_, by rw [text, lines_eq, locate_render _ 1 (noMarker (by simp)) (noMarker (by simp))
    (not_infix_render fit)], ?_⟩
  -- Around the lines there are only the markers, which have no equals sign.
  have shape : Region.managed ⟨render opening ++ List.replicate (2 * 1) ' ',
      '\n' :: render (indent (line notice ++ regionLines renames model)) ++
        List.replicate (2 * 1) ' ', '\n' :: render (ending model)⟩ =
      beginMarker ++ ['\n'] ++ (render (indent (line notice ++ regionLines renames model)) ++
        (List.replicate (2 * 1) ' ' ++ endMarker)) := by
    simp [Region.managed]
  have closing : mentions (List.replicate (2 * 1) ' ' ++ endMarker) = [] :=
    Managed.mentions_eq_nil (by decide)
  rw [shape, Managed.mentions_append_of_beginsNothing (by decide),
    mentions_regionLines (fun user among => (fits.accounts user among).isUsername), closing,
    List.append_nil]

/--
A merge with the system file takes away accounts of the model's users only, exactly if the model
mentions no other user, and none before its turn.

Then the region defines the model's users in order, and a block of any other user stays, wherever it
stands outside the blocks of the model's users.
-/
theorem owns_definitions_iff {model : Model} (fits : StringsFit model)
    (current : renames.AllCurrent FitsLine) :
    (∃ fresh, locate (text renames model) = some fresh ∧
        definedUsers fresh.managed = usernames model ∧
        ∀ existing region ahead block behind username, locate existing = some region →
          region.before = ahead ++ block ++ behind → IsUserBlock username block →
          username ∉ model.users.map (·.username) → IsOutside (usernames model) ahead block behind →
          ∃ front back, locate (merge existing (text renames model)) =
            some ⟨front ++ collapseBlankLines block ++ back, fresh.body, region.after⟩) ↔
      firsts (modelMentions renames model) = usernames model := by
  obtain ⟨fresh, made, mentioned⟩ := exists_locate_text (fits.linesFit current)
  constructor
  · -- The region that is located is the one whose mentions are known.
    rintro ⟨region, found, defined, -⟩
    obtain rfl := Option.some.inj (made.symm.trans found)
    rw [← defined, Managed.definedUsers_eq, mentioned]
  · intro same
    have defined : definedUsers fresh.managed = usernames model := by
      rw [Managed.definedUsers_eq, mentioned, same]
    refine ⟨fresh, made, defined, ?_⟩
    -- A user who is not in the model is not defined by the region.
    intro existing region ahead block behind username present whole isBlock other outside
    rw [← defined] at outside
    refine Managed.exists_merge_spared present made whole isBlock (fun among => other ?_) outside
    rw [defined] at among
    exact Managed.mem_firsts.1 among

/-- No current name in the built-in tables has a hash sign or a line feed. -/
theorem allCurrent_builtin : Renames.builtin.AllCurrent FitsLine := by
  -- The tables are closed terms, so all their names are looked at.
  have plain {entries : List (String × String)}
      (all : entries.all (fun entry => !entry.2.toList.contains '#' && !entry.2.toList.contains '\n')) :
      ∀ entry ∈ entries, FitsLine entry.2.toList := by
    intro entry among
    have both := List.all_eq_true.1 all entry among
    exact IsPlain.fits (by simpa [IsPlain] using both)
  exact ⟨plain (by decide), plain (by decide), plain (by decide)⟩

/-- The texts of a machine fit if its settings can be read back, and all its services. -/
theorem stringsFit_of_systemFits {model : Model} (fits : SystemFits renames model)
    (areServices : ∀ service ∈ model.system.services, IsService renames service) :
    StringsFit model := by
  -- Names of services and options are paths, which fit on a line.
  have path {text : List Char} (onPath : ∀ c ∈ text, Text.isPathChar c = true) : FitsLine text :=
    (isPlain_of_forall rfl rfl onPath).fits
  exact
    { hostname := fits.hostname
      timezone := fits.timezone
      locale := fits.locale
      keyboardLayout := fits.keyboardLayout
      preset := fits.preset
      features := fun feature among => (fits.features feature among).1
      packages := fun package among => (fits.arePackages.named package among).isWord.isPlain.fits
      services := fun service among => by
        have isService := areServices service among
        refine ⟨path isService.isPath.onPath, fun entry isEntry => ?_⟩
        have isOption := isService.options entry isEntry
        exact ⟨path isOption.isKey.onPath, isOption.fits⟩
      accounts := fun user among => (fits.areAccounts user among).fits }

/-- The texts of the initial model fit. -/
theorem stringsFit_initial : StringsFit .initial :=
  -- The default model is readable.
  stringsFit_of_systemFits isReadable_initial.system isService_initial

/-- The texts of the household fit. -/
theorem stringsFit_householdModel : StringsFit householdModel :=
  -- The model is readable.
  stringsFit_of_systemFits isReadable_householdModel.system isService_householdModel

/-- A block written by hand. -/
def handWritten (username : String) : List Char :=
  Managed.userPath ++ username.toList ++ " = \x7b\n  uid = 1001;\n\x7d;".toList

/-- What is written by hand is a block of its user. -/
theorem isUserBlock_handWritten {username : String}
    (named : ∀ c ∈ username.toList, Text.isNameChar c = true) :
    IsUserBlock username (handWritten username) := by
  -- The block is cut at its equals sign and at its brace.
  have shape : " = \x7b\n  uid = 1001;\n\x7d;".toList =
      [' '] ++ '=' :: ([' '] ++ '{' :: "\n  uid = 1001;\n\x7d;".toList) := by decide
  have blank : ∀ c ∈ [' '], Text.isBlank c = true := by simp [Text.isBlank]
  refine ⟨named, ?_, "\n  uid = 1001;\n\x7d;".toList, "\n  uid = 1001;\n".toList, ?_, by decide⟩
  · rw [handWritten, List.append_assoc]
    exact List.prefix_append _ _
  · rw [handWritten, shape]
    exact Managed.userHead?_eq_some_iff.2 ⟨[], [' '], [' '], List.forall_mem_nil _, blank, blank, rfl⟩

/-- A file of which some text stands before an empty region. -/
def withEmptyRegion (before : List Char) : List Char :=
  before ++ beginMarker ++ endMarker ++ ['\n']

/-- The household owns two definitions: a merge takes away what is written of ada, and not of carol. -/
theorem owns_definitions_householdModel :
    StringsFit householdModel ∧ Renames.builtin.AllCurrent FitsLine ∧
      usernames householdModel = ["ada", "bob"] ∧
      (∃ fresh, locate (text .builtin householdModel) = some fresh ∧
        definedUsers fresh.managed = ["ada", "bob"]) ∧
      ∃ front back region, locate (merge (withEmptyRegion (handWritten "ada" ++ '\n' ::
        handWritten "carol" ++ ['\n'])) (text .builtin householdModel)) = some region ∧
          region.before = front ++ handWritten "carol" ++ back := by
  have both : usernames householdModel = ["ada", "bob"] := by decide
  -- What the model mentions is decided, and the theorem says what that means for merges.
  obtain ⟨fresh, made, defined, spares⟩ :=
    (owns_definitions_iff stringsFit_householdModel allCurrent_builtin).2 (by decide)
  rw [both] at defined spares
  have isBlock : IsUserBlock "carol" (handWritten "carol") :=
    isUserBlock_handWritten (List.all_eq_true.1 (by decide))
  have outside : IsOutside ["ada", "bob"] (handWritten "ada" ++ ['\n']) (handWritten "carol")
      ['\n'] := by
    refine ⟨by decide, fun rest kept => ?_⟩
    -- With ada's block gone, a line feed is still all that follows carol's.
    have cut : Managed.removeUserBlock "ada" (handWritten "ada" ++ ['\n'] ++ handWritten "carol" ++ ['\n']) =
        Managed.removeUserBlock "ada" (handWritten "ada" ++ ['\n']) ++ handWritten "carol" ++ ['\n'] := by
      decide
    obtain rfl := List.append_cancel_left (cut.symm.trans kept)
    exact ⟨by decide, fun _ _ => trivial⟩
  have present : locate (withEmptyRegion (handWritten "ada" ++ '\n' :: handWritten "carol" ++ ['\n'])) =
      some ⟨handWritten "ada" ++ '\n' :: handWritten "carol" ++ ['\n'], [], ['\n']⟩ := by
    decide
  obtain ⟨front, back, kept⟩ := spares _ _ (handWritten "ada" ++ ['\n']) (handWritten "carol")
    ['\n'] "carol" present (by simp) isBlock (by decide) outside
  have same : collapseBlankLines (handWritten "carol") = handWritten "carol" := by decide
  rw [same] at kept
  exact ⟨stringsFit_householdModel, allCurrent_builtin, both, ⟨fresh, made, defined⟩, front, back, _,
    kept, rfl⟩

/-- The initial model with a description that reads like the definition of another user. -/
def chattyModel : Model :=
  -- The user keeps the placeholder's name.
  { Model.initial with users := [{ User.named placeholderName with
      description := "formerly users.users.bob = guest" }] }

/-- A definition in a description lets a merge take away an account that is not the model's. -/
theorem account_lost_to_description :
    usernames chattyModel = ["nixuser"] ∧
      (locate (text .builtin chattyModel)).map (definedUsers ·.managed) = some ["nixuser", "bob"] ∧
      IsUserBlock "bob" (handWritten "bob") ∧ IsOutside ["nixuser"] [] (handWritten "bob") ['\n'] ∧
      (locate (merge (withEmptyRegion (handWritten "bob" ++ ['\n']))
        (text .builtin chattyModel))).map (·.before) = some [] := by
  -- The block is one of his own and stands outside, yet nothing of it is left.
  have isBlock : IsUserBlock "bob" (handWritten "bob") :=
    isUserBlock_handWritten (List.all_eq_true.1 (by decide))
  exact ⟨by decide, by decide +kernel, isBlock, ⟨by decide +kernel, fun _ _ => trivial⟩,
    by decide +kernel⟩

end NixKeeper.Files.SystemFile
