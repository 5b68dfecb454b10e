import NixKeeper.Proofs.Files.SystemFile.Settings

/-! The accounts of the users are read back from their blocks. -/

namespace NixKeeper.Files.SystemFile

variable {renames : Renames} {placeholder : String} {seen : List String}

/-- The model with other users. -/
def withUsers (model : Model) (users : List User) : Model :=
  { model with users }

/-- A user as the file with the settings of the machine describes one. -/
def account (user : User) : User :=
  -- The rest of a user stands in the home file.
  { user with
    packages := []
    gitName := none
    gitEmail := none }

/-- A user who is known already, with the account of another; a password is never taken away. -/
def withAccount (user known : User) : User :=
  -- A password that is not written stays as it was.
  { known with
    description := user.description
    shell := user.shell
    extraGroups := user.extraGroups
    hashedPassword := user.hashedPassword.or known.hashedPassword }

/-- The users with one whose block is read: the user is looked up or added, and then changed. -/
def withUser (placeholder : String) (users : List User) (user : User) : List User :=
  -- The user is claimed first, and its account is laid over the one found.
  (claimUser users user.username placeholder).2.modify
    (claimUser users user.username placeholder).1 (withAccount user)

/-- A user whose account can be read back. -/
structure IsAccount (user : User) : Prop where
  isUsername : IsUsername user.username
  description : FitsLine user.description.toList
  groups : ∀ group ∈ user.extraGroups, FitsLine group.toList ∧ '\\' ∉ group.toList
  shell : FitsLine user.shell.toList
  shellTrimmed : Text.trim user.shell.toList = user.shell.toList
  /-- A brace at the end of a line opens a block. -/
  shellCloses : user.shell.toList.getLast? ≠ some '{'
  password : ∀ password ∈ user.hashedPassword, FitsLine password.toList

/-- A line in the block of a user changes this user. -/
theorem after_userLine {lines : List Line} {raw clean : List Char} (model : Model)
    (users : List User) (index : Nat) (single : said lines = [⟨raw, clean⟩])
    (noEnd : closes clean = false) (noBlock : opens clean = false) :
    after renames placeholder lines ⟨withUsers model users, .user (some index) 0, seen⟩ =
      ⟨withUsers model (users.modify index (readUserLine clean)), .user (some index) 0, seen⟩ := by
  -- A line without braces neither opens nor closes a block.
  have outside : nested clean 0 (.user (some index)) = none := by
    rw [nested, noEnd, noBlock]
    rfl
  rw [after, single, List.foldl_cons, List.foldl_nil, readStatement]
  simp only [readUser, outside, if_true, withUsers]

/-- The description of the user is read back. -/
theorem readUserLine_description (description : String) (user : User) :
    readUserLine (assignment "description".toList (Nix.quote description.toList)) user =
      { user with description } := by
  -- The description is looked for first.
  have path : IsPath "description".toList := by decide
  rw [readUserLine, assignedText?_own _ path]

/-- A line that assigns to another path tells neither the description nor the password. -/
theorem assigned?_other {path value : List Char} (isPath : IsPath path)
    (others : ∀ other ∈ ["description", "hashedPassword", "initialPassword"], other.toList ≠ path) :
    assignedText? "description" (assignment path value) = none ∧
      password? (assignment path value) = none := by
  -- The line is asked for a password under both of its names.
  have unread (other : String) (isOther : IsPath other.toList) (different : other.toList ≠ path) :
      assigned? other (assignment path value) = none := by
    rw [assigned?_assignment _ _ isPath isOther, if_neg different]
  constructor
  · rw [assignedText?, unread _ (by decide) (others _ (by simp))]
    rfl
  · rw [password?, unread _ (by decide) (others "hashedPassword" (by simp)),
      unread _ (by decide) (others "initialPassword" (by simp))]
    rfl

/-- The groups of the user are read back. -/
theorem readUserLine_extraGroups {groups : List String} (user : User)
    (noBackslash : ∀ group ∈ groups, '\\' ∉ group.toList) :
    readUserLine (assignment "extraGroups".toList (Nix.formatList groups)) user =
      { user with extraGroups := groups } := by
  have path : IsPath "extraGroups".toList := by decide
  -- The rules before it ask for other paths.
  obtain ⟨noDescription, noPassword⟩ := @assigned?_other _ (Nix.formatList groups) path (by
    simp only [List.forall_mem_cons]
    exact ⟨by decide, by decide, by decide, List.forall_mem_nil _⟩)
  have read : (assigned? "extraGroups" (assignment "extraGroups".toList
      (Nix.formatList groups))).bind Nix.parseList? = some groups := by
    rw [assigned?_assignment _ _ path path, if_pos rfl, Option.bind_some, Nix.trim_formatList,
      Nix.parseList?_formatList noBackslash]
  simp only [readUserLine, noDescription, noPassword, read]

/-- The shell of the user is read back. -/
theorem readUserLine_shell {shell : String} (user : User)
    (trimmed : Text.trim shell.toList = shell.toList) :
    readUserLine (assignment "shell".toList shell.toList) user = { user with shell } := by
  have path : IsPath "shell".toList := by decide
  have group : IsPath "extraGroups".toList := by decide
  -- The rules before it ask for other paths.
  obtain ⟨noDescription, noPassword⟩ := @assigned?_other _ shell.toList path (by
    simp only [List.forall_mem_cons]
    exact ⟨by decide, by decide, by decide, List.forall_mem_nil _⟩)
  have noGroups : assigned? "extraGroups" (assignment "shell".toList shell.toList) = none := by
    rw [assigned?_assignment _ _ path group, if_neg (by decide)]
  have read : assigned? "shell" (assignment "shell".toList shell.toList) = some shell.toList := by
    rw [assigned?_assignment _ _ path path, if_pos rfl, trimmed]
  simp only [readUserLine, noDescription, noPassword, noGroups, Option.bind_none, read,
    String.ofList_toList]

/-- The hash of the user's password is read back. -/
theorem readUserLine_hashedPassword (password : String) (user : User) :
    readUserLine (assignment "hashedPassword".toList (Nix.quote password.toList)) user =
      { user with hashedPassword := some password } := by
  have path : IsPath "hashedPassword".toList := by decide
  -- The rule before it asks for another path.
  have noDescription : assignedText? "description"
      (assignment "hashedPassword".toList (Nix.quote password.toList)) = none :=
    assignedText?_other _ path (by decide) (by decide)
  have read : password? (assignment "hashedPassword".toList (Nix.quote password.toList)) =
      some password := by
    rw [password?, assigned?_assignment _ _ path path, if_pos rfl, Option.orElse_some,
      Option.bind_some, Nix.trim_quote, Nix.unquote?_quote, String.ofList_toList]
  simp only [readUserLine, noDescription, read]

/-- A quoted text ends with a quote. -/
theorem getLast?_assignment_quote (path value : List Char) :
    (assignment path (Nix.quote value)).getLast? = some '"' := by
  rw [getLast?_assignment _ (Nix.quote_ne_nil value), Nix.getLast?_quote]

/-- The line with the shell is read back, also if there is none. -/
theorem after_shell {shell : String} (model : Model) (users : List User) (index : Nat)
    (trimmed : Text.trim shell.toList = shell.toList) (closed : shell.toList.getLast? ≠ some '{') :
    after renames placeholder (assign "shell".toList shell.toList)
        ⟨withUsers model users, .user (some index) 0, seen⟩ =
      ⟨withUsers model (users.modify index fun user => { user with shell }), .user (some index) 0,
        seen⟩ := by
  have path : IsPath "shell".toList := by decide
  -- Without a shell, a blank would be left before the semicolon; it is trimmed with the statement.
  cases last : shell.toList.getLast? with
  | none =>
    have empty : shell = "" := String.toList_inj.1 (List.getLast?_eq_none_iff.1 last)
    have nothing : readUserLine "shell =".toList = fun user => { user with shell } := by
      rw [empty]
      rfl
    have single : said (assign "shell".toList shell.toList) =
        [⟨"shell = ;".toList, "shell =".toList⟩] := by
      rw [empty]
      rfl
    rw [after_userLine model users index single rfl rfl, nothing]
  | some c =>
    have nonempty : shell.toList ≠ [] := by
      intro empty
      rw [empty] at last
      cases last
    have single := said_assign path.begins nonempty (Text.trim_eq_self_iff.1 trimmed).2
    have whole : (assignment "shell".toList shell.toList).getLast? = some c := by
      rw [getLast?_assignment _ nonempty, last]
    have noBlock := opens_of_getLast? whole (fun same => closed (same ▸ last))
    have read : readUserLine (assignment "shell".toList shell.toList) =
        fun user => { user with shell } := funext fun user => readUserLine_shell user trimmed
    rw [after_userLine model users index single rfl noBlock, read]

/-- The line with the password is read back, if there is one. -/
theorem after_password (model : Model) (users : List User) (index : Nat) (password : Option String) :
    after renames placeholder
        (match password with
          | some password => assignText "hashedPassword".toList password.toList
          | none => [])
        ⟨withUsers model users, .user (some index) 0, seen⟩ =
      ⟨withUsers model (users.modify index fun user =>
        { user with hashedPassword := password.or user.hashedPassword }), .user (some index) 0,
        seen⟩ := by
  have path : IsPath "hashedPassword".toList := by decide
  cases password with
  | none =>
    -- Without a password no line is written, and the user is left as known.
    have same := List.modify_id index users
    exact congrArg (fun users => Progress.mk (withUsers model users) _ seen) same.symm
  | some password =>
    have read : readUserLine (assignment "hashedPassword".toList (Nix.quote password.toList)) =
        fun user => { user with hashedPassword := some password } :=
      funext fun user => readUserLine_hashedPassword password user
    rw [after_userLine model users index (said_assignText _ path.begins) rfl
      (opens_of_getLast? (getLast?_assignment_quote _ _) (by decide)), read]
    rfl

/-- The lines in the block of a user are read back. -/
theorem after_accountLines {user : User} (model : Model) (users : List User) (index : Nat)
    (isAccount : IsAccount user) :
    after renames placeholder
        (switchOn "isNormalUser".toList ++
          assignText "description".toList user.description.toList ++
          assign "extraGroups".toList (Nix.formatList user.extraGroups) ++
          assign "shell".toList user.shell.toList ++
          match user.hashedPassword with
          | some password => assignText "hashedPassword".toList password.toList
          | none => [])
        ⟨withUsers model users, .user (some index) 0, seen⟩ =
      ⟨withUsers model (users.modify index (withAccount user)), .user (some index) 0, seen⟩ := by
  have normal : IsPath "isNormalUser".toList := by decide
  have description : IsPath "description".toList := by decide
  have groups : IsPath "extraGroups".toList := by decide
  have listed := said_assign groups.begins (Nix.formatList_ne_nil user.extraGroups)
    (Text.forall_getLast?_of_eq (Nix.getLast?_formatList user.extraGroups) rfl)
  have lastListed : (assignment "extraGroups".toList (Nix.formatList user.extraGroups)).getLast? =
      some ']' := by
    rw [getLast?_assignment _ (Nix.formatList_ne_nil _), Nix.getLast?_formatList]
  -- Each line changes one field, and the changes are made one after another in the same place.
  have idle : readUserLine (assignment "isNormalUser".toList "true".toList) = id := rfl
  have described : readUserLine (assignment "description".toList
      (Nix.quote user.description.toList)) = fun known =>
        { known with description := user.description } :=
    funext fun known => readUserLine_description user.description known
  have grouped : readUserLine (assignment "extraGroups".toList (Nix.formatList user.extraGroups)) =
      fun known => { known with extraGroups := user.extraGroups } :=
    funext fun known => readUserLine_extraGroups known fun group among =>
      (isAccount.groups group among).2
  rw [after_append, after_append, after_append, after_append,
    after_userLine model users index (said_switchOn normal.begins) rfl rfl, idle, List.modify_id,
    after_userLine model users index (said_assignText _ description.begins) rfl
      (opens_of_getLast? (getLast?_assignment_quote _ _) (by decide)), described,
    after_userLine model _ index listed rfl (opens_of_getLast? lastListed (by decide)), grouped,
    after_shell model _ index isAccount.shellTrimmed isAccount.shellCloses, after_password,
    List.modify_modify_eq, List.modify_modify_eq, List.modify_modify_eq]
  rfl

/-- The block of a user is read back. -/
theorem after_userLines {user : User} (model : Model) (isAccount : IsAccount user)
    (new : user.username ∉ seen) :
    after renames placeholder (userLines user) ⟨model, .top, seen⟩ =
      ⟨withUsers model (withUser placeholder model.users user), .top, seen ++ [user.username]⟩ := by
  -- Where the user stands does not matter for the lines of the block.
  generalize claimed : claimUser model.users user.username placeholder = claim
  obtain ⟨index, users⟩ := claim
  have path : IsPath ("users.users.".toList ++ user.username.toList) := by
    refine ⟨List.append_ne_nil_of_right_ne_nil _ isAccount.isUsername.nonempty, fun c within => ?_⟩
    rcases List.mem_append.1 within with inWord | inName
    · exact List.all_eq_true.1 (by decide) c inWord
    · rw [Text.isPathChar, isAccount.isUsername.named c inName, Bool.true_or]
  have unseen : seen.contains user.username = false := by simpa using new
  have opened : after renames placeholder
      (line ("users.users.".toList ++ user.username.toList ++ " = \x7b".toList))
      ⟨model, .top, seen⟩ =
        ⟨withUsers model users, .user (some index) 0, seen ++ [user.username]⟩ := by
    rw [after_single (said_opening path.begins), readTop, classify_userStart isAccount.isUsername]
    dsimp only
    rw [openUser, unseen, if_neg Bool.false_ne_true, claimed]
    rfl
  have closed (model : Model) (index : Nat) (seen : List String) :
      after renames placeholder (line "\x7d;".toList) ⟨model, .user (some index) 0, seen⟩ =
        ⟨model, .top, seen⟩ := rfl
  rw [userLines, block, after_append, after_append, after_indent, opened]
  refine (congrArg _ (after_accountLines model users index isAccount)).trans ?_
  rw [closed, withUser, claimed]

/-- Users of different names. -/
abbrev Distinct (users : List User) : Prop :=
  DistinctBy User.username users

/-- The blocks of users of different names are read back, in their order. -/
theorem after_userBlocks {users : List User} (model : Model)
    (areAccounts : ∀ user ∈ users, IsAccount user) (distinct : Distinct users)
    (unseen : ∀ user ∈ users, user.username ∉ seen) :
    after renames placeholder (users.flatMap fun user => blank ++ userLines user)
        ⟨model, .top, seen⟩ =
      ⟨withUsers model (users.foldl (withUser placeholder) model.users), .top,
        seen ++ users.map (·.username)⟩ := by
  induction users generalizing model seen with
  | nil =>
    rw [List.map_nil, List.append_nil]
    rfl
  | cons user rest ih =>
    obtain ⟨isAccount, laterAccounts⟩ := List.forall_mem_cons.1 areAccounts
    obtain ⟨apart, laterDistinct⟩ := List.pairwise_cons.1 distinct
    obtain ⟨notSeen, laterUnseen⟩ := List.forall_mem_cons.1 unseen
    -- A block that has been opened before would be passed over.
    have stillUnseen : ∀ other ∈ rest, other.username ∉ seen ++ [user.username] := by
      intro other among within
      rcases List.mem_append.1 within with old | added
      · exact laterUnseen other among old
      · exact apart other among (List.mem_singleton.1 added).symm
    have later := ih (withUsers model (withUser placeholder model.users user)) laterAccounts
      laterDistinct stillUnseen
    rw [List.append_assoc] at later
    rw [List.flatMap_cons, after_append, after_append, after_blank,
      after_userLines model isAccount notSeen]
    exact later

/-- A user who is known by name is found, whoever else is there. -/
theorem claimUser_of_found {users : List User} {name : String} {index : Nat}
    (found : users.findIdx? (·.username == name) = some index) :
    claimUser users name placeholder = (index, users) := by
  -- A known user is claimed where it stands.
  unfold claimUser
  rw [found]

/-- A user who is known by name is changed where the user stands. -/
theorem withUser_of_known {users : List User} {user : User} (distinct : Distinct users)
    (known : ∃ other ∈ users, other.username = user.username) :
    withUser placeholder users user =
      entered User.username User.username withAccount account users user := by
  -- The user is found by name, so nobody is added or renamed.
  have present : users.any (·.username == user.username) = true := by
    obtain ⟨other, within, same⟩ := known
    exact List.any_eq_true.2 ⟨other, within, beq_iff_eq.2 same⟩
  have there : (users.findIdx? (·.username == user.username)).isSome := by
    rw [List.findIdx?_isSome, present]
  obtain ⟨index, found⟩ := Option.isSome_iff_exists.1 there
  rw [withUser, claimUser_of_found found, entered, present, if_pos rfl]
  exact modify_of_findIdx? _ distinct found

/-- A user who is not known is added behind users of whom none may be renamed. -/
theorem withUser_of_new {users : List User} {user : User}
    (new : ∀ other ∈ users, other.username ≠ user.username)
    (settled : ∀ only, users = [only] → only.username ≠ placeholder) :
    withUser placeholder users user =
      entered User.username User.username withAccount account users user := by
  have absent : users.findIdx? (·.username == user.username) = none := by
    simpa [List.findIdx?_eq_none_iff] using new
  -- Only a single user under the placeholder could be renamed instead.
  have claimed : claimUser users user.username placeholder =
      (users.length, users ++ [.named user.username]) := by
    unfold claimUser
    rw [absent]
    dsimp only
    split
    · rename_i only
      rw [if_neg (settled only rfl)]
      rfl
    · rfl
  have described : withAccount user (.named user.username) = account user := by
    rw [withAccount, User.named, account, Option.or_none]
  rw [withUser, claimed, entered, any_eq_false_of_new new, if_neg Bool.false_ne_true]
  dsimp only
  rw [modify_concat, described]

/-- A single user under the placeholder name takes any other name. -/
theorem withUser_placeholder {only : User} (user : User) (isPlaceholder : only.username = placeholder) :
    withUser placeholder [only] user = [withAccount user { only with username := user.username }] := by
  -- The placeholder may be the very name of the user, who is then found and not renamed.
  by_cases same : only.username = user.username
  · have found : [only].findIdx? (·.username == user.username) = some 0 := by
      simp [List.findIdx?_cons, same]
    rw [withUser, claimUser_of_found found, ← same]
    rfl
  · have absent : [only].findIdx? (·.username == user.username) = none := by
      simp [List.findIdx?_cons, same]
    have claimed : claimUser [only] user.username placeholder =
        (0, [{ only with username := user.username, description := user.username }]) := by
      unfold claimUser
      rw [absent]
      dsimp only
      rw [if_pos isPlaceholder]
    rw [withUser, claimed]
    rfl

/-- No user may be renamed: there are several of them, or the only one has a name. -/
structure Settled (placeholder : String) (users : List User) : Prop where
  nonempty : users ≠ []
  named : ∀ only, users = [only] → only.username ≠ placeholder

/-- Where no user may be renamed, each user is changed or added by name. -/
theorem foldl_withUser_of_settled {users known : List User} (distinct : Distinct known)
    (settled : Settled placeholder known) :
    users.foldl (withUser placeholder) known =
      users.foldl (entered User.username User.username withAccount account) known := by
  induction users generalizing known with
  | nil => rfl
  | cons user rest ih =>
    have here : withUser placeholder known user =
        entered User.username User.username withAccount account known user := by
      by_cases there : ∃ other ∈ known, other.username = user.username
      · exact withUser_of_known distinct there
      · have new : ∀ other ∈ known, other.username ≠ user.username :=
          fun other within same => there ⟨other, within, same⟩
        exact withUser_of_new new settled.named
    -- Nobody loses a name, and nobody leaves.
    have still : Settled placeholder
        (entered User.username User.username withAccount account known user) := by
      unfold entered
      split
      · refine ⟨by simpa using settled.nonempty, fun only single => ?_⟩
        -- The users keep their names.
        obtain ⟨other, rfl, rfl⟩ := List.map_eq_singleton_iff.1 single
        have named := settled.named other rfl
        split
        · exact named
        · exact named
      · refine ⟨by simp, fun only single => ?_⟩
        have lengths := congrArg List.length single
        have positive := List.length_pos_iff.2 settled.nonempty
        simp only [List.length_append, List.length_cons, List.length_nil] at lengths
        omega
    rw [List.foldl_cons, List.foldl_cons, here]
    exact ih (distinct.entered user (fun _ _ => rfl) fun _ => rfl) still

/-- Users who are known as they are stay as they are. -/
theorem foldl_withUser_self {users known : List User} (distinct : Distinct known)
    (within : ∀ user ∈ users, user ∈ known) :
    users.foldl (withUser placeholder) known = known := by
  induction users with
  | nil => rfl
  | cons user rest ih =>
    obtain ⟨among, later⟩ := List.forall_mem_cons.1 within
    -- Names are distinct, so the user found by name is this one.
    have same : ∀ other ∈ known, other.username = user.username →
        withAccount user other = other := by
      intro other there sameName
      rw [distinct.eq_of_name_eq there among sameName, withAccount, Option.or_self]
    have here : withUser placeholder known user = known := by
      rw [withUser_of_known distinct ⟨user, among, rfl⟩]
      exact foldl_entered_of_known (List.forall_mem_singleton.2 ⟨user, among, rfl⟩)
        (List.forall_mem_singleton.2 same)
    rw [List.foldl_cons, here]
    exact ih later

/-- A placeholder becomes the first user, and the others follow. -/
theorem foldl_withUser_placeholder {first only : User} {rest : List User}
    (distinct : Distinct (first :: rest)) (isPlaceholder : only.username = placeholder)
    (settled : first.username = placeholder → rest = []) :
    (first :: rest).foldl (withUser placeholder) [only] =
      withAccount first { only with username := first.username } :: rest.map account := by
  obtain ⟨apart, laterDistinct⟩ := List.pairwise_cons.1 distinct
  rw [List.foldl_cons, withUser_placeholder first isPlaceholder]
  cases rest with
  | nil => rfl
  | cons second others =>
    -- Once the first user has a name, no other one can take the place.
    have named : first.username ≠ placeholder := fun same => by cases settled same
    have isSettled : Settled placeholder
        [withAccount first { only with username := first.username }] := by
      refine ⟨by simp, fun other single => ?_⟩
      obtain rfl := List.singleton_inj.1 single
      exact named
    have new : ∀ user ∈ second :: others,
        ∀ known ∈ [withAccount first { only with username := first.username }],
          known.username ≠ user.username := by
      intro user among known within
      rw [List.mem_singleton.1 within]
      exact apart user among
    refine (foldl_withUser_of_settled (List.pairwise_singleton _ _) isSettled).trans ?_
    exact foldl_entered_of_new (fun _ _ => rfl) (fun _ => rfl) laterDistinct new

/-- Of several users only new ones are kept, behind those that are kept already. -/
theorem exists_foldl_distinct (users : List User) {kept : List User} (distinct : Distinct kept) :
    ∃ more, users.foldl (fun kept user =>
        if kept.any (·.username == user.username) then kept else kept ++ [user]) kept =
          kept ++ more ∧ (∀ user ∈ more, user ∈ users) ∧ Distinct (kept ++ more) := by
  -- The kept users grow behind, so that each of them stays the first of the name.
  induction users generalizing kept with
  | nil => exact ⟨[], by simp, fun _ none => absurd none List.not_mem_nil, by simpa using distinct⟩
  | cons user rest ih =>
    rw [List.foldl_cons]
    split
    · obtain ⟨more, same, within, apart⟩ := ih distinct
      exact ⟨more, same, fun other among => List.mem_cons_of_mem _ (within other among), apart⟩
    · rename_i new
      -- A user is only added if nobody of the name is there.
      have apart : Distinct (kept ++ [user]) := by
        refine List.pairwise_append.2 ⟨distinct, List.pairwise_singleton _ _, ?_⟩
        intro known among other only same
        rw [List.mem_singleton.1 only] at same
        exact new (List.any_eq_true.2 ⟨known, among, beq_iff_eq.2 same⟩)
      obtain ⟨more, same, within, stillApart⟩ := ih apart
      rw [List.append_assoc] at same stillApart
      refine ⟨[user] ++ more, same, fun other among => ?_, stillApart⟩
      rcases List.mem_cons.1 among with rfl | later
      · exact List.mem_cons_self
      · exact List.mem_cons_of_mem _ (within other later)

/-- The first user is kept, and behind it users of other names. -/
theorem exists_distinctUsers_cons (first : User) (rest : List User) :
    ∃ more, distinctUsers (first :: rest) = first :: more ∧ (∀ user ∈ more, user ∈ rest) ∧
      Distinct (first :: more) := by
  -- The first user of all is kept, and the fold goes on with it.
  obtain ⟨more, same, within, distinct⟩ :=
    exists_foldl_distinct rest (List.pairwise_singleton _ first : Distinct [first])
  exact ⟨more, same, within, distinct⟩

/-- What is written about a user stands on lines of a region. -/
structure AccountFits (user : User) : Prop where
  isUsername : IsUsername user.username
  description : FitsLine user.description.toList
  groups : ∀ group ∈ user.extraGroups, FitsLine group.toList
  shell : FitsLine user.shell.toList
  password : ∀ password ∈ user.hashedPassword, FitsLine password.toList

/-- A user that can be read back is written on lines of a region. -/
theorem IsAccount.fits {user : User} (isAccount : IsAccount user) : AccountFits user :=
  -- Reading asks for more than standing on one line.
  ⟨isAccount.isUsername, isAccount.description, fun group among => (isAccount.groups group among).1,
    isAccount.shell, isAccount.password⟩

/-- The lines of a user fit into a region. -/
theorem allFit_userLines {user : User} (fits : AccountFits user) : AllFit (userLines user) := by
  -- A name holds neither a line feed nor a hash sign.
  have plain : IsPlain user.username.toList :=
    @isPlain_of_forall Text.isNameChar _ rfl rfl fits.isUsername.named
  have opening : FitsLine ("users.users.".toList ++ user.username.toList ++ " = \x7b".toList) := by
    rw [List.append_assoc]
    exact FitsLine.append (by decide) (FitsLine.append plain (IsPlain.fits (by decide)))
  rw [userLines, allFit_block, allFit_append, allFit_append, allFit_append, allFit_append]
  refine ⟨opening, ⟨⟨⟨⟨allFit_switchOn (IsPlain.fits (by decide)),
    allFit_assignText (by decide) fits.description⟩,
    allFit_assign (by decide) (fitsLine_formatList fits.groups)⟩,
    allFit_assign (by decide) fits.shell⟩, ?_⟩, IsPlain.fits (by decide)⟩
  cases known : user.hashedPassword with
  | none => exact List.forall_mem_nil _
  | some password => exact allFit_assignText (by decide) (fits.password password known)

end NixKeeper.Files.SystemFile
