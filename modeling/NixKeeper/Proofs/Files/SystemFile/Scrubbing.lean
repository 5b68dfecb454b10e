import NixKeeper.Proofs.Files.Extraction
import NixKeeper.Proofs.Files.SystemFile.DefinedOnce
import NixKeeper.Proofs.Files.SystemFile.Inert
import NixKeeper.Proofs.Files.SystemFile.Ownership

/-!
The removal of users from the generated system file takes away the blocks of these users and nothing
else, whatever stands in the texts of the model.
-/

namespace NixKeeper.Files.SystemFile

open Managed (Scrubs Stand bracesMatch removeUserBlock userHead? withoutUsers withoutUsers_cons)

/-! The blocks of users. -/

/-- The text of the block of a user in the file. -/
def accountText (user : User) : List Char :=
  render (indent (userLines user))

/-- A user whose block can be cut out of the file. -/
structure IsCutOut (user : User) : Prop where
  username : ∀ c ∈ user.username.toList, Text.isNameChar c = true
  description : '\n' ∉ user.description.toList ∧ '\\' ∉ user.description.toList
  groups : ∀ group ∈ user.extraGroups, '\n' ∉ group.toList ∧ '\\' ∉ group.toList
  /-- The expression of the shell is written as it is. -/
  shell : '\n' ∉ user.shell.toList ∧ '"' ∉ user.shell.toList ∧ bracesMatch 0 user.shell.toList = true
  password : ∀ password ∈ user.hashedPassword, '\n' ∉ password.toList ∧ '\\' ∉ password.toList

/-- A user whose block can be cut out is balanced. -/
theorem IsCutOut.balances {user : User} (cutOut : IsCutOut user) : AccountBalances user where
  -- Characters of names are neither braces nor quotes.
  username := isBare_of_onPath fun c within => by simp [Text.isPathChar, cutOut.username c within]
  description := cutOut.description.2
  groups group among := (cutOut.groups group among).2
  shell := cutOut.shell.2
  password password present := (cutOut.password password present).2

/-- The block goes from the line with the path of the user to the line with the closing brace. -/
theorem accountText_eq (user : User) :
    accountText user = "  users.users.".toList ++ user.username.toList ++ " = \x7b\n".toList ++
      render (indent (indent (userBody user))) ++ "  \x7d;\n".toList := by
  -- The region is one step deep in the file, and the body of the block one step deeper.
  have parted : indent (userLines user) =
      ⟨1, "users.users.".toList ++ user.username.toList ++ " = \x7b".toList⟩ ::
        (indent (indent (userBody user)) ++ [⟨1, "\x7d;".toList⟩]) := by
    simp [userLines_eq, block, line, indent]
  rw [accountText, parted, render_cons, render_append]
  simp [render, Line.render]

/-- The lines in the block of a user begin no definition. -/
theorem allInert_userBody {username : String} {user : User} (cutOut : IsCutOut user) :
    AllInert username (userBody user) := by
  -- Each line begins with the name of its entry, and what is assigned stays on the line.
  have normal : AllInert username (switchOn "isNormalUser".toList) := allInert_switchOn (by decide)
  have description : AllInert username
      (assignText "description".toList user.description.toList) :=
    allInert_assignText (by decide) cutOut.description.1
  have groups : AllInert username (assign "extraGroups".toList (Nix.formatList user.extraGroups)) :=
    allInert_assignList (by decide) fun group among => (cutOut.groups group among).1
  have shell : AllInert username (assign "shell".toList user.shell.toList) :=
    allInert_assign (by decide) cutOut.shell.1
  rw [userBody]
  refine (normal.append description |>.append groups |>.append shell).append ?_
  cases found : user.hashedPassword with
  | none => exact List.forall_mem_nil _
  | some password => exact allInert_assignText (by decide) (cutOut.password password found).1

/-- The block of a user stays when another user is removed. -/
theorem scrubs_accountText_of_ne {username : String} {user : User} (cutOut : IsCutOut user)
    (named : ∀ c ∈ username.toList, Text.isNameChar c = true) (different : username ≠ user.username) :
    Scrubs username (accountText user) (accountText user) := by
  -- Only the first line looks like a definition, but the name in it is not the one that is looked for.
  have opening : IsInert username
      ("users.users.".toList ++ user.username.toList ++ " = \x7b".toList) := by
    refine ⟨?_, fun rest => ?_⟩
    · simp only [List.mem_append, not_or]
      exact ⟨⟨by decide, Text.not_mem_of_class cutOut.username rfl⟩, by decide⟩
    · rw [Option.eq_none_iff_forall_ne_some]
      intro body head
      -- Both names reach from the path to the gap before the equals sign.
      have begins : Managed.userPath <+: "users.users.".toList ++ user.username.toList ++
          " = \x7b".toList ++ '\n' :: rest := by
        rw [List.append_assoc, List.append_assoc]
        exact List.prefix_append _ _
      obtain ⟨gap, space, areGap, -, whole⟩ := Managed.userHead?_of_path begins head
      have parted : "users.users.".toList ++ user.username.toList ++ " = \x7b".toList ++ '\n' :: rest =
          Managed.userPath ++ (user.username.toList ++ ([' '] ++ '=' :: ' ' :: '{' :: '\n' :: rest)) := by
        rw [List.append_assoc, List.append_assoc]
        rfl
      rw [parted, List.append_assoc] at whole
      have names := Managed.name_eq_of_gap cutOut.username named forall_mem_space areGap
        (List.append_cancel_left whole)
      exact different (String.toList_inj.1 names.symm)
  have closing : IsApart "\x7d;".toList := by decide
  apply AllInert.scrubs
  rw [userLines_eq]
  exact (allInert_block opening (allInert_userBody cutOut) closing.isInert).indent

/-- The block of a user goes when the user is removed. -/
theorem scrubs_accountText_self {user : User} (cutOut : IsCutOut user) :
    Scrubs user.username (accountText user) [] := by
  intro rest
  -- The body of the block begins with a line feed and ends with the spaces before the brace.
  let inside := '\n' :: (render (indent (indent (userBody user))) ++ "  ".toList)
  have parted : accountText user ++ rest = "  ".toList ++ (Managed.userPath ++ user.username.toList ++
      ([' '] ++ '=' :: ([' '] ++ '{' :: (inside ++ '}' :: (";\n".toList ++ rest))))) := by
    simp only [accountText_eq, inside, List.append_assoc, List.cons_append]
    rfl
  have head : userHead? user.username (accountText user ++ rest) =
      some (inside ++ '}' :: (";\n".toList ++ rest)) :=
    Managed.userHead?_eq_some_iff.2
      ⟨"  ".toList, [' '], [' '], List.all_eq_true.1 (by decide), forall_mem_space, forall_mem_space, parted⟩
  have closed : Managed.splitBlock 0 false false (inside ++ '}' :: (";\n".toList ++ rest)) =
      some (inside, ";\n".toList ++ rest) := by
    have lineFeed : Stand.step? ⟨0, false, false⟩ '\n' = some ⟨0, false, false⟩ := rfl
    have level := (isLevel_userBody cutOut.balances).indent.indent.behind?_render 0
    have reached : Stand.behind? ⟨0, false, false⟩ inside = some ⟨0, false, false⟩ := by
      rw [Stand.behind?, lineFeed, Option.bind_some, Stand.behind?_append, level]
      rfl
    exact Stand.split_eq_some_iff.2 ⟨rfl, _, reached, rfl⟩
  have ending : Managed.afterBlock (";\n".toList ++ rest) = rest := rfl
  obtain ⟨front, shape⟩ : ∃ front, accountText user = front ++ ['\n'] := by
    rw [accountText_eq]
    exact ⟨_ ++ "  \x7d;".toList, (List.append_assoc _ "  \x7d;".toList ['\n']).symm⟩
  have nonempty : accountText user ≠ [] := by
    rw [shape]
    exact List.append_ne_nil_of_right_ne_nil _ (List.cons_ne_nil _ _)
  -- Behind the line feed of the block the next line begins.
  have begins : Managed.beginsLine true (accountText user) = true := by
    rw [shape, Managed.beginsLine, List.getLast?_concat]
    rfl
  rw [Managed.removeUserFrom_of_closed head closed ending nonempty, begins]
  rfl

/-! The whole file, with and without the blocks of some users. -/

/-- What is left of the block of a user when the blocks of some users are gone. -/
def accountLeft (gone : List String) (user : User) : List Char :=
  if user.username ∈ gone then [] else accountText user

/-- The blocks of users, each behind an empty line, when those of some users are gone. -/
def accountsWithout (gone : List String) (users : List User) : List Char :=
  users.flatMap fun user => '\n' :: accountLeft gone user

/-- Nothing is left of the block of a user who is gone. -/
theorem accountLeft_of_mem {gone : List String} {user : User} (isGone : user.username ∈ gone) :
    accountLeft gone user = [] :=
  -- The user is among those that go.
  if_pos isGone

/-- The block of a user who is not gone is left. -/
theorem accountLeft_of_not_mem {gone : List String} {user : User} (stays : user.username ∉ gone) :
    accountLeft gone user = accountText user :=
  -- The user is not among those that go.
  if_neg stays

/-- Users who are not gone have their blocks. -/
theorem accountsWithout_of_forall {gone : List String} {users : List User}
    (stay : ∀ user ∈ users, user.username ∉ gone) :
    accountsWithout gone users = users.flatMap fun user => '\n' :: accountText user :=
  -- Every account is left as it is.
  List.flatMap_congr fun user among => by rw [accountLeft_of_not_mem (stay user among)]

/-- Of users who are all gone the empty lines are left. -/
theorem accountsWithout_of_all_gone {gone : List String} {users : List User}
    (allGone : ∀ user ∈ users, user.username ∈ gone) :
    accountsWithout gone users = users.flatMap fun _ => ['\n'] :=
  -- Of every account only the empty line in front is left.
  List.flatMap_congr fun user among => by rw [accountLeft_of_mem (allGone user among)]

/-- No block is missing when nobody is gone. -/
theorem accountsWithout_nil (users : List User) :
    accountsWithout [] users = users.flatMap fun user => '\n' :: accountText user :=
  -- No user is among none.
  accountsWithout_of_forall fun _ _ => List.not_mem_nil

/-- The text of the file before the blocks of users. -/
def textBefore (model : Model) : List Char :=
  -- This reaches from the beginning of the file to the first account.
  render (opening ++ [⟨1, Managed.beginMarker⟩] ++ indent (line notice ++
    importLines model.system ++ blank ++ bootLines model.system.bootloader ++
    switchOn "boot.loader.efi.canTouchEfiVariables".toList ++ blank ++
    placeLines .builtin model.system ++ blank ++
    assign "nix.settings.experimental-features".toList
      (Nix.formatList model.system.experimentalFeatures) ++
    switchOn "nixpkgs.config.allowUnfree".toList ++ swapLines model.system.swapSize))

/-- The text of the file behind the blocks of users. -/
def textBehind (model : Model) : List Char :=
  -- This reaches from the last account to the end of the file.
  render (indent (shellLines (distinctUsers model.users) ++ blank)) ++
    (render (indent (packageLines .builtin model.system.packages)) ++
      render (indent ((model.system.services.filter (·.enabled)).flatMap fun service =>
        blank ++ serviceLines .builtin service) ++ [⟨1, Managed.endMarker⟩] ++ ending model))

/-- The lines of the users' blocks are written block by block. -/
theorem render_accounts (users : List User) :
    render (indent (users.flatMap fun user => blank ++ userLines user)) = accountsWithout [] users := by
  rw [accountsWithout_nil, render, indent, List.map_flatMap, List.flatMap_assoc]
  -- Each account is rendered on its own, with the empty line in front of it.
  refine List.flatMap_congr fun user _ => ?_
  rw [List.map_append, List.flatMap_append]
  rfl

/-- The blocks of users stand between the settings of the machine and the rest of the file. -/
theorem text_eq (model : Model) :
    text .builtin model =
      textBefore model ++ accountsWithout [] (distinctUsers model.users) ++ textBehind model := by
  rw [← render_accounts, text, lines_eq, textBefore, textBehind, ← render_append, ← render_append,
    ← render_append, ← render_append]
  -- The same lines are put together, in groups or one after another.
  refine congrArg render ?_
  simp only [regionAt, regionLines, indent_append, List.append_assoc, List.cons_append,
    List.nil_append]

/-- A model whose names are identifiers and paths and whose other texts stand on one line each. -/
structure StandsApart (model : Model) : Prop where
  hostname : '\n' ∉ model.system.hostname.toList
  timezone : '\n' ∉ model.system.timezone.toList
  locale : '\n' ∉ model.system.locale.toList
  keyboardLayout : '\n' ∉ model.system.keyboardLayout.toList
  preset : ∀ preset ∈ model.system.hardwarePreset, '\n' ∉ preset.toList
  features : ∀ feature ∈ model.system.experimentalFeatures, '\n' ∉ feature.toList
  packages : ∀ package ∈ model.system.packages, ∀ c ∈ package.name.toList, isPackageChar c = true
  services : ∀ service ∈ model.system.services, service.enabled = true →
    ("services.".toList <+: service.name.toList ∧ ∀ c ∈ service.name.toList, Text.isPathChar c = true) ∧
      ∀ entry ∈ service.options.entries, (∀ c ∈ entry.1.toList, isPackageChar c = true) ∧
        ∀ text ∈ literalTexts entry.2, '\n' ∉ text.toList
  users : ∀ user ∈ model.users, IsCutOut user

section File

variable {username : String} {model : Model}

/-- The current name of a service begins with another letter than the path of users. -/
theorem isApart_builtin_service {name : String} (isService : "services.".toList <+: name.toList)
    (onPath : ∀ c ∈ name.toList, Text.isPathChar c = true) :
    IsApart (Renames.builtin.service name).toList := by
  -- What took the place of a former name is a service as well.
  have own : IsApart name.toList := by
    obtain ⟨rest, whole⟩ := isService
    have front : IsApart "services.".toList := by decide
    rw [← whole] at onPath ⊢
    exact front.append fun within =>
      Text.not_mem_of_class onPath rfl (List.mem_append_right _ within)
  refine Renames.getD_get?_of_forall ?_ own name
  rw [Renames.entries_builtin_services]
  decide

/-- What stands before the blocks of users stays. -/
theorem scrubs_textBefore (stands : StandsApart model) :
    Scrubs username (textBefore model) (textBefore model) := by
  -- Every line here begins with a letter or a sign of its own, so only line feeds could do harm.
  have single {text : List Char} (apart : IsApart text) (depth : Nat) :
      AllInert username [⟨depth, text⟩] := List.forall_mem_singleton.2 apart.isInert
  have head : AllInert username (opening ++ [⟨1, Managed.beginMarker⟩]) :=
    (single (by decide) 0).append allInert_blank |>.append (single (by decide) 0)
      |>.append (single (by decide) 1)
  have place : AllInert username (placeLines .builtin model.system) :=
    (allInert_assignText (by decide) stands.hostname).append
      (allInert_assignText (by decide) stands.timezone)
      |>.append (allInert_assignText (by decide) stands.locale)
      |>.append (allInert_assignText (by decide) stands.keyboardLayout)
  have features : AllInert username (assign "nix.settings.experimental-features".toList
      (Nix.formatList model.system.experimentalFeatures)) :=
    allInert_assignList (by decide) stands.features
  have efi : AllInert username (switchOn "boot.loader.efi.canTouchEfiVariables".toList) :=
    allInert_switchOn (by decide)
  have unfree : AllInert username (switchOn "nixpkgs.config.allowUnfree".toList) :=
    allInert_switchOn (by decide)
  have boot := (single (by decide) 0 : AllInert username (line notice))
    |>.append (allInert_importLines stands.preset) |>.append allInert_blank
    |>.append (allInert_bootLines model.system.bootloader) |>.append efi |>.append allInert_blank
  have settings := boot.append place |>.append allInert_blank |>.append features
    |>.append unfree |>.append (allInert_swapLines model.system.swapSize)
  exact (head.append settings.indent).scrubs

/-- What stands behind the blocks of users stays. -/
theorem scrubs_textBehind (named : ∀ c ∈ username.toList, Text.isNameChar c = true)
    (stands : StandsApart model) : Scrubs username (textBehind model) (textBehind model) := by
  -- The lines of packages need the bracket behind them, all others stay by themselves.
  obtain ⟨within, -⟩ := distinctUsers_eq model.users
  have single {text : List Char} (apart : IsApart text) (depth : Nat) :
      AllInert username [⟨depth, text⟩] := List.forall_mem_singleton.2 apart.isInert
  have shells : AllInert username (shellLines (distinctUsers model.users)) :=
    allInert_shellLines fun user among => (stands.users user (within user among)).shell.1
  have services : AllInert username ((model.system.services.filter (·.enabled)).flatMap fun service =>
      blank ++ serviceLines .builtin service) := by
    apply allInert_flatMap
    intro service among
    obtain ⟨isService, enabled⟩ := List.mem_filter.1 among
    obtain ⟨⟨path, onPath⟩, options⟩ := stands.services service isService enabled
    refine allInert_blank.append (allInert_serviceLines named (isApart_builtin_service path onPath) ?_)
    intro entry isOption
    obtain ⟨key, texts⟩ := options entry isOption
    exact ⟨allCurrent_builtin_chars.option (fun _ _ within all c inPart => all c (within.subset inPart))
      key, texts⟩
  have version : AllInert username (assignText "system.stateVersion".toList
      (Nix.stateVersion model.nixVersion.toList)) :=
    allInert_assignText (by decide)
      (Text.not_mem_of_class (Nix.onPath_stateVersion model.nixVersion.toList) rfl)
  have tail : AllInert username (ending model) :=
    (allInert_blank.append version).indent.append (single (by decide) 0)
  apply Scrubs.append (shells.append allInert_blank).indent.scrubs
  apply Scrubs.append
  · apply scrubs_packageLines named
    intro package among
    exact allCurrent_builtin_chars.package (fun _ _ within all c inPart => all c (within.subset inPart))
      (stands.packages package among)
  · exact (services.indent.append (single (by decide) 1) |>.append tail).scrubs

/-- The removal of a user leaves nothing of the user's own block, and all other blocks. -/
theorem scrubs_accountLeft {user : User} (cutOut : IsCutOut user)
    (named : ∀ c ∈ username.toList, Text.isNameChar c = true) (gone : List String) :
    Scrubs username (accountLeft gone user) (accountLeft (gone ++ [username]) user) := by
  -- Either the block was gone before, or it goes now, or it is that of another user.
  by_cases isGone : user.username ∈ gone
  · rw [accountLeft_of_mem isGone, accountLeft_of_mem (List.mem_append_left _ isGone)]
    exact .nil
  · rw [accountLeft_of_not_mem isGone]
    by_cases own : user.username = username
    · subst own
      rw [accountLeft_of_mem (List.mem_append_right _ (List.mem_singleton_self _))]
      exact scrubs_accountText_self cutOut
    · have stays : user.username ∉ gone ++ [username] := by simpa using ⟨isGone, own⟩
      rw [accountLeft_of_not_mem stays]
      exact scrubs_accountText_of_ne cutOut named (Ne.symm own)

/-- The removal of a user takes the user's block away from those that are left. -/
theorem scrubs_accountsWithout {users : List User} (cutOut : ∀ user ∈ users, IsCutOut user)
    (named : ∀ c ∈ username.toList, Text.isNameChar c = true) (gone : List String) :
    Scrubs username (accountsWithout gone users) (accountsWithout (gone ++ [username]) users) := by
  -- The empty line before each block stays.
  have space : Scrubs username ['\n'] ['\n'] := allInert_blank.scrubs
  apply Scrubs.flatMap
  intro user among
  exact space.append (scrubs_accountLeft (cutOut user among) named gone)

/-- The removal of several users takes their blocks away, and nothing else. -/
theorem withoutUsers_accountsWithout (stands : StandsApart model) {names : List String}
    (named : ∀ name ∈ names, ∀ c ∈ name.toList, Text.isNameChar c = true) (gone : List String) :
    withoutUsers names (textBefore model ++ accountsWithout gone (distinctUsers model.users) ++
        textBehind model) =
      textBefore model ++ accountsWithout (gone ++ names) (distinctUsers model.users) ++
        textBehind model := by
  obtain ⟨within, -⟩ := distinctUsers_eq model.users
  -- Each step finds the file that the steps before it have left.
  induction names generalizing gone with
  | nil =>
    rw [List.append_nil]
    rfl
  | cons name later ih =>
    obtain ⟨own, others⟩ := List.forall_mem_cons.1 named
    have accounts := scrubs_accountsWithout (fun user among => stands.users user (within user among))
      own gone
    have whole := ((scrubs_textBefore stands).append accounts).append (scrubs_textBehind own stands)
    rw [withoutUsers_cons, whole.removeUserBlock_eq, ih others, List.append_assoc gone]
    rfl

/-- The usernames of a model are those of the users whose blocks are written. -/
theorem usernames_eq (model : Model) :
    usernames model = (distinctUsers model.users).map (·.username) :=
  -- The users that are kept have the names that are kept.
  (map_username_distinctUsers model.users).symm

/-- Before and behind one of the blocks stand the others. -/
theorem accountsWithout_append_cons (gone : List String) (earlier later : List User) (owner : User) :
    accountsWithout gone (earlier ++ owner :: later) =
      accountsWithout gone earlier ++ ['\n'] ++ accountLeft gone owner ++ accountsWithout gone later := by
  -- The accounts are joined one after another.
  simp [accountsWithout]

/-- The removal of a user takes away the one block that is written for the user's name. -/
theorem exists_removeUserBlock_text (stands : StandsApart model) {user : User}
    (isUser : user ∈ model.users) :
    ∃ owner ∈ distinctUsers model.users, ∃ front behind, owner.username = user.username ∧
      text .builtin model = front ++ accountText owner ++ behind ∧
      removeUserBlock user.username (text .builtin model) = front ++ behind := by
  have isName : user.username ∈ (distinctUsers model.users).map (·.username) := by
    rw [← usernames_eq]
    exact Managed.mem_firsts.2 (List.mem_map_of_mem isUser)
  obtain ⟨owner, among, same⟩ := List.mem_map.1 isName
  obtain ⟨earlier, later, parts⟩ := List.append_of_mem among
  -- No other block is written for that name.
  obtain ⟨-, distinct⟩ := distinctUsers_eq model.users
  rw [parts] at distinct
  obtain ⟨-, behindOwner, apart⟩ := List.pairwise_append.1 distinct
  have stayEarlier : ∀ other ∈ earlier, other.username ∉ [user.username] := fun other isOther =>
    mt List.mem_singleton.1 (same ▸ apart other isOther owner List.mem_cons_self)
  have stayLater : ∀ other ∈ later, other.username ∉ [user.username] := fun other isOther =>
    mt List.mem_singleton.1 (same ▸ Ne.symm ((List.pairwise_cons.1 behindOwner).1 other isOther))
  have named : ∀ name ∈ [user.username], ∀ c ∈ name.toList, Text.isNameChar c = true :=
    List.forall_mem_singleton.2 (stands.users user isUser).username
  refine ⟨owner, among, textBefore model ++ accountsWithout [] earlier ++ ['\n'],
    accountsWithout [] later ++ textBehind model, same, ?_, ?_⟩
  · rw [text_eq, parts, accountsWithout_append_cons, accountLeft_of_not_mem List.not_mem_nil]
    simp only [List.append_assoc]
  · rw [text_eq]
    refine (withoutUsers_accountsWithout stands named []).trans ?_
    rw [parts, accountsWithout_append_cons, List.nil_append,
      accountLeft_of_mem (same ▸ List.mem_singleton_self _), accountsWithout_of_forall stayEarlier,
      accountsWithout_of_forall stayLater, ← accountsWithout_nil, ← accountsWithout_nil]
    simp only [List.append_assoc, List.nil_append]

/-- The removal of all users, in any order, leaves the empty lines before their blocks. -/
theorem withoutUsers_text_of_perm (stands : StandsApart model) {names : List String}
    (perm : names.Perm (usernames model)) :
    withoutUsers names (text .builtin model) =
      textBefore model ++ (distinctUsers model.users).flatMap (fun _ => ['\n']) ++ textBehind model := by
  obtain ⟨within, -⟩ := distinctUsers_eq model.users
  -- The order does not matter, because each block goes with its own name.
  have named : ∀ name ∈ names, ∀ c ∈ name.toList, Text.isNameChar c = true := by
    intro name among
    rw [perm.mem_iff, usernames_eq] at among
    obtain ⟨user, isUser, rfl⟩ := List.mem_map.1 among
    exact (stands.users user (within user isUser)).username
  have allGone : ∀ user ∈ distinctUsers model.users, user.username ∈ names := by
    intro user among
    rw [perm.mem_iff, usernames_eq]
    exact List.mem_map_of_mem among
  rw [text_eq, withoutUsers_accountsWithout stands named, List.nil_append,
    accountsWithout_of_all_gone allGone]

/--
The removal of a user from the generated file undoes the writing of the user's block, and nothing else.

The block goes from the line with the path of the user to the line with the closing brace. The removal
of all users, in any order, leaves the file without their blocks.
-/
theorem withoutUsers_text (stands : StandsApart model) :
    (∀ user ∈ model.users, ∃ owner ∈ distinctUsers model.users, ∃ front behind,
      owner.username = user.username ∧
        text .builtin model = front ++ accountText owner ++ behind ∧
        accountText owner = "  users.users.".toList ++ user.username.toList ++ " = \x7b\n".toList ++
          render (indent (indent (userBody owner))) ++ "  \x7d;\n".toList ∧
        removeUserBlock user.username (text .builtin model) = front ++ behind) ∧
      ∃ front behind,
        text .builtin model = front ++
            (distinctUsers model.users).flatMap (fun user => '\n' :: accountText user) ++ behind ∧
          ∀ names, names.Perm (usernames model) →
            withoutUsers names (text .builtin model) =
              front ++ (distinctUsers model.users).flatMap (fun _ => ['\n']) ++ behind := by
  refine ⟨fun user isUser => ?_, textBefore model, textBehind model, ?_,
    fun names perm => withoutUsers_text_of_perm stands perm⟩
  · obtain ⟨owner, among, front, behind, same, written, removed⟩ :=
      exists_removeUserBlock_text stands isUser
    exact ⟨owner, among, front, behind, same, written, same ▸ accountText_eq owner, removed⟩
  · -- Both texts have the same beginning and the same end.
    rw [text_eq, accountsWithout_nil]

end File

/-- A model whose texts read like definitions of users, whose usernames begin alike. -/
def lookalikeModel : Model :=
  -- Two of the users share a name, and only the first of them is written.
  { Model.initial with
    system := { System.initial with
      hostname := "users.users.ada = \x7b"
      packages := [⟨"users.users.ada", "a package"⟩]
      services := [{ Service.named "services.openssh" with
        options := .ofList [("users.users.ada", .list ["\x7b", "\x7d;"])] }] }
    users := [
      { User.named "ada" with description := "\x7d; users.users.ada-2 = \x7b", shell := "$\x7bpkgs.zsh\x7d" },
      { User.named "ada-2" with hashedPassword := some "\"\x7b" },
      { User.named "ad" with extraGroups := ["users.users.ada = \x7b"] },
      User.named "ada"] }

/-- The blocks of the users can be told from the texts that read like them. -/
theorem standsApart_lookalikeModel : StandsApart lookalikeModel where
  hostname := by decide
  timezone := by decide
  locale := by decide
  keyboardLayout := by decide
  preset := nofun
  features := by decide
  packages := List.forall_mem_singleton.2 (List.all_eq_true.1 (by decide))
  services := by
    intro service among _
    obtain rfl := List.mem_singleton.1 among
    refine ⟨⟨List.prefix_append _ "openssh".toList, List.all_eq_true.1 (by decide)⟩, ?_⟩
    -- The table of options has a single entry.
    have options : (Table.ofList [("users.users.ada", Literal.list ["\x7b", "\x7d;"])]).entries =
        [("users.users.ada", Literal.list ["\x7b", "\x7d;"])] := by
      decide
    intro entry isOption
    rw [options] at isOption
    obtain rfl := List.mem_singleton.1 isOption
    exact ⟨List.all_eq_true.1 (by decide), by decide⟩
  users := by
    refine List.forall_mem_cons.2 ⟨?_, List.forall_mem_cons.2 ⟨?_, List.forall_mem_cons.2 ⟨?_,
      List.forall_mem_singleton.2 ?_⟩⟩⟩
    all_goals exact ⟨List.all_eq_true.1 (by decide), by decide, by decide, by decide, by decide⟩

/-- Definitions in texts, in packages and in options stay where they are. -/
theorem withoutUsers_text_lookalikeModel :
    StandsApart lookalikeModel ∧
      (∃ owner ∈ distinctUsers lookalikeModel.users, ∃ front behind, owner.username = "ada" ∧
        text .builtin lookalikeModel = front ++ accountText owner ++ behind ∧
        accountText owner = "  users.users.ada = \x7b\n".toList ++
          render (indent (indent (userBody owner))) ++ "  \x7d;\n".toList ∧
        removeUserBlock "ada" (text .builtin lookalikeModel) = front ++ behind) ∧
      ∃ front behind, withoutUsers ["ada-2", "ad", "ada"] (text .builtin lookalikeModel) =
        front ++ ['\n', '\n', '\n'] ++ behind := by
  -- Removing the users in another order than that of their blocks does not matter.
  have stands := standsApart_lookalikeModel
  obtain ⟨single, front, behind, -, all⟩ := withoutUsers_text stands
  have perm : ["ada-2", "ad", "ada"].Perm (usernames lookalikeModel) := by decide
  exact ⟨stands, single (User.named "ada") (by simp [lookalikeModel]), front, behind, all _ perm⟩

end NixKeeper.Files.SystemFile
