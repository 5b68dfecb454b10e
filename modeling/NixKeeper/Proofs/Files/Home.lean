import NixKeeper.Files.Generated
import NixKeeper.Proofs.Files.Generated
import NixKeeper.Proofs.Files.PackageList
import NixKeeper.Proofs.Files.Shell

/-! The settings of a user's home are read back from their file. -/

namespace NixKeeper.Files.Home

variable {renames : Renames}

/-- The user after the statements of some lines, outside of lists and blocks. -/
abbrev after (renames : Renames) (lines : List Line) (progress : Progress) : Progress :=
  (said lines).foldl (readStatement renames) progress

/-- Lines are read one after another. -/
theorem after_append (first second : List Line) (progress : Progress) :
    after renames (first ++ second) progress = after renames second (after renames first progress) := by
  -- What is said first changes the progress with which the rest is read.
  rw [after, said_append, List.foldl_append]

/-- The depth of lines does not matter. -/
theorem after_indent (lines : List Line) (progress : Progress) :
    after renames (indent lines) progress = after renames lines progress := by
  -- Indentation is trimmed before a line is read.
  rw [after, said_indent]

/-- A text assigned to a path that tells nothing about the user is passed over. -/
theorem readTop_assignText {path : List Char} (value : List Char) (raw : List Char)
    (progress : Progress) (isPath : IsPath path)
    (noPackages : "home.packages".toList.isPrefixOf (assignment path (Nix.quote value)) = false)
    (noGit : "programs.git".toList ≠ path) (noName : "programs.git.userName".toList ≠ path)
    (noEmail : "programs.git.userEmail".toList ≠ path) :
    readTop renames progress ⟨raw, assignment path (Nix.quote value)⟩ = progress := by
  -- Each kind of line is looked for in turn, and none is found.
  have git : assigned? "programs.git" (assignment path (Nix.quote value)) = none := by
    rw [assigned?_assignment _ _ isPath (by decide), if_neg noGit]
  have identity : readIdentity? "programs.git.userName" "programs.git.userEmail"
      (assignment path (Nix.quote value)) progress.user = none := by
    rw [readIdentity?, assignedText?_other _ isPath (by decide) noName,
      assignedText?_other _ isPath (by decide) noEmail]
    rfl
  have shell : enabledShell? (assignment path (Nix.quote value)) = none := by
    -- A shell is switched on by a word, not by a text.
    have quoted : ¬ Text.trimStart (Nix.quote value) = "true".toList := by
      rintro ⟨⟩
    rw [enabledShell?, assigns?_assignment "true" _ isPath.nonempty isPath.onPath rfl, if_neg quoted]
    rfl
  rw [readTop]
  simp only [noPackages, Bool.false_eq_true, if_false, git, identity, shell]
  rfl

/-- The lines that say whose home it is are passed over. -/
theorem after_owner {username : List Char} (progress : Progress) (atTop : progress.context = .top) :
    after renames (assignText "home.username".toList username ++
      assignText "home.homeDirectory".toList ("/home/".toList ++ username)) progress = progress := by
  have path : IsPath "home.username".toList := by decide
  have other : IsPath "home.homeDirectory".toList := by decide
  -- Both are assignments to paths that no rule of the home is about.
  rw [after, said_append, said_assignText _ path.begins, said_assignText _ other.begins,
    List.singleton_append, List.foldl_cons, List.foldl_cons, List.foldl_nil]
  simp only [readStatement, atTop]
  rw [readTop_assignText _ _ progress path rfl (by decide) (by decide) (by decide), atTop]
  exact readTop_assignText _ _ progress other rfl (by decide) (by decide) (by decide)

/-- The lines of the list add its packages. -/
theorem after_packages {packages : List Package} (user : User)
    (words : ∀ package ∈ packages, IsPackageWord (renames.package package.name)) :
    after renames (packages.flatMap fun package => line (renames.package package.name).toList)
        ⟨user, .packages⟩ =
      ⟨{ user with
        packages := withNames renames user.packages (writtenNames renames packages) }, .packages⟩ := by
  -- The list stays open from line to line.
  induction packages generalizing user with
  | nil => rfl
  | cons package rest ih =>
    obtain ⟨isWord, laterWords⟩ := List.forall_mem_cons.1 words
    obtain ⟨statement, single, isWhole⟩ := said_line_of_isPackageWord isWord
    rw [after, List.flatMap_cons, said_append, single, List.foldl_append,
      List.foldl_cons, List.foldl_nil, readStatement, isWhole]
    dsimp only
    rw [readPackages, collectPackages_of_isPackageWord _ isWord]
    exact ih _ laterWords

/-- The list of packages is read back by the names that are written in it. -/
theorem after_packageList {packages : List Package} (user : User)
    (words : ∀ package ∈ packages, IsPackageWord (renames.package package.name)) :
    after renames (block "home.packages = with pkgs; [".toList
        (packages.flatMap fun package => line (renames.package package.name).toList) "];".toList)
        ⟨user, .top⟩ =
      ⟨{ user with
        packages := withNames renames user.packages (writtenNames renames packages) }, .top⟩ := by
  have opened : after renames (line "home.packages = with pkgs; [".toList) ⟨user, .top⟩ =
      ⟨user, .packages⟩ := rfl
  have closed (user : User) : after renames (line "];".toList) ⟨user, .packages⟩ = ⟨user, .top⟩ := rfl
  -- The brackets only open and close the list.
  rw [block, after_append, after_append, after_indent, opened, after_packages user words, closed]

/-- The line with the name of the user is read back. -/
theorem after_gitName (user : User) (name : String) :
    after renames (assignText "userName".toList name.toList) ⟨user, .git⟩ =
      ⟨{ user with gitName := some name }, .git⟩ := by
  have path : IsPath "userName".toList := by decide
  have inside : closes (assignment "userName".toList (Nix.quote name.toList)) = false := rfl
  -- The line stands inside of the block, where the name is looked for first.
  have read := assignedText?_own name path
  rw [after, said_assignText _ path.begins, List.foldl_cons, List.foldl_nil]
  simp only [readStatement, inside, readIdentity?, read, Bool.false_eq_true, if_false]

/-- The line with the address of the user is read back. -/
theorem after_gitEmail (user : User) (email : String) :
    after renames (assignText "userEmail".toList email.toList) ⟨user, .git⟩ =
      ⟨{ user with gitEmail := some email }, .git⟩ := by
  have path : IsPath "userEmail".toList := by decide
  have inside : closes (assignment "userEmail".toList (Nix.quote email.toList)) = false := rfl
  -- The rule for the name comes first, and does not apply to the path of the address.
  have other : assignedText? "userName"
      (assignment "userEmail".toList (Nix.quote email.toList)) = none :=
    assignedText?_other _ path (by decide) (by decide)
  have read := assignedText?_own email path
  rw [after, said_assignText _ path.begins, List.foldl_cons, List.foldl_nil]
  simp only [readStatement, inside, readIdentity?, other, read, Bool.false_eq_true, if_false,
    Option.map_some]

/-- The block with the identity of the user says what its lines say. -/
theorem after_gitBlock {user known : User} {body : List Line}
    (inside : after renames body ⟨user, .git⟩ = ⟨known, .git⟩) :
    after renames (block "programs.git = \x7b".toList body "\x7d;".toList) ⟨user, .top⟩ =
      ⟨known, .top⟩ := by
  have opened : after renames (line "programs.git = \x7b".toList) ⟨user, .top⟩ = ⟨user, .git⟩ := rfl
  have closed : after renames (line "\x7d;".toList) ⟨known, .git⟩ = ⟨known, .top⟩ := rfl
  -- Between its braces the block is read in a context of its own.
  rw [block, after_append, after_append, after_indent, opened, inside, closed]

/-- The identity of the user is read back, as far as it is known. -/
theorem after_gitLines (owner user : User) :
    after renames (gitLines owner) ⟨user, .top⟩ =
      ⟨{ user with
        gitName := owner.gitName.or user.gitName
        gitEmail := owner.gitEmail.or user.gitEmail }, .top⟩ := by
  have enabled (user : User) : after renames (switchOn "enable".toList) ⟨user, .git⟩ =
      ⟨user, .git⟩ := rfl
  rw [gitLines]
  -- A single line stands for the block if nothing is known; else each text has its line.
  cases owner.gitName with
  | none =>
    cases owner.gitEmail with
    | none => rfl
    | some email =>
      refine after_gitBlock ?_
      rw [after_append, after_append, enabled]
      exact after_gitEmail _ email
  | some name =>
    cases owner.gitEmail with
    | none =>
      refine after_gitBlock ?_
      rw [after_append, after_append, enabled, after_gitName]
      rfl
    | some email =>
      refine after_gitBlock ?_
      rw [after_append, after_append, enabled, after_gitName, after_gitEmail]
      rfl

/-- The shells that can be switched on are named on paths. -/
theorem onPath_of_knownShells {program : List Char}
    (known : knownShells.contains (String.ofList program) = true) :
    ∀ c ∈ program, Text.isPathChar c = true := by
  have each : knownShells.all (·.toList.all Text.isPathChar) = true := by decide
  -- The known shells are a few closed words.
  have onPath := List.all_eq_true.1 each _ (List.contains_iff_mem.1 known)
  rw [String.toList_ofList] at onPath
  exact List.all_eq_true.1 onPath

/-- Of the programs that are switched on, the known shells are recognised. -/
theorem enabledShell?_program (program : List Char) :
    enabledShell? (assignment ("programs.".toList ++ program ++ ".enable".toList) "true".toList) =
      if knownShells.contains (String.ofList program) then some program else none := by
  -- A program that is no path is none of the known shells either.
  by_cases onPath : ∀ c ∈ program, Text.isPathChar c = true
  · have between := Text.between?_append "programs.".toList program ".enable".toList
    rw [enabledShell?, assigns?_program_of_onPath "true" onPath, if_pos rfl, Option.bind_eq_bind,
      Option.bind_some, between, Option.bind_some]
  · have unknown : ¬ knownShells.contains (String.ofList program) = true := fun known =>
      onPath (onPath_of_knownShells known)
    rw [enabledShell?, assigns?_program "true" onPath (by decide), if_neg unknown]
    rfl

/-- The user after a program has been switched on, which may be the user's shell. -/
def withProgram (user : User) (program : List Char) : User :=
  if knownShells.contains (String.ofList program) then withShell user program else user

/-- The shell that is switched on is read back. -/
theorem after_shell (user : User) (program : List Char) :
    after renames (enableProgram program) ⟨user, .top⟩ = ⟨withProgram user program, .top⟩ := by
  have path : BeginsOnPath ("programs.".toList ++ program ++ ".enable".toList) := by
    have word : IsPath "programs.".toList := by decide
    exact (word.begins.append program).append ".enable".toList
  -- The line ends with a letter: neither a brace nor a quote.
  have last : (assignment ("programs.".toList ++ program ++ ".enable".toList)
      "true".toList).getLast? = some 'e' := by
    rw [getLast?_assignment _ (by decide)]
    decide
  have packages : "home.packages".toList.isPrefixOf
      (assignment ("programs.".toList ++ program ++ ".enable".toList) "true".toList) = false := rfl
  have git : assigned? "programs.git"
      (assignment ("programs.".toList ++ program ++ ".enable".toList) "true".toList) ≠ some ['{'] :=
    fun assigned => absurd (getLast?_of_assigned? last rfl (by decide) assigned) (by decide)
  have identity : readIdentity? "programs.git.userName" "programs.git.userEmail"
      (assignment ("programs.".toList ++ program ++ ".enable".toList) "true".toList) user = none := by
    rw [readIdentity?, assignedText?_eq_none _ last rfl (by decide) (by decide),
      assignedText?_eq_none _ last rfl (by decide) (by decide)]
    rfl
  rw [after, enableProgram, said_switchOn path, List.foldl_cons, List.foldl_nil, readStatement]
  dsimp only
  rw [readTop]
  simp only [packages, Bool.false_eq_true, if_false, git, identity, enabledShell?_program, withProgram]
  cases knownShells.contains (String.ofList program) <;> rfl

/-- The program that is switched on in the home of a user. -/
def program (owner : User) : List Char :=
  (shellProgram? owner.shell.toList).getD "bash".toList

/-- A user with what the home of an owner says, except for the shell. -/
def withHome (owner user : User) : User :=
  -- What the file does not say stays as it was.
  { user with
    packages := owner.packages.foldl withPackage user.packages
    gitName := owner.gitName.or user.gitName
    gitEmail := owner.gitEmail.or user.gitEmail }

/-- A user with what the home of an owner says, the packages read by the names that are written. -/
def withHomeNames (renames : Renames) (owner user : User) : User :=
  -- Only the packages are told by their names.
  { withHome owner user with
    packages := withNames renames user.packages (writtenNames renames owner.packages) }

/-- The managed lines of a home are read back, the packages by the names that are written. -/
theorem after_regionLines_of_words {owner : User} (user : User)
    (words : ∀ package ∈ owner.packages, IsPackageWord (renames.package package.name)) :
    after renames (regionLines renames owner) ⟨user, .top⟩ =
      ⟨withProgram (withHomeNames renames owner user) (program owner), .top⟩ := by
  have empty (progress : Progress) : after renames blank progress = progress := rfl
  -- The region is read part by part, and its empty lines say nothing.
  rw [regionLines, after_append, after_append, after_append, after_append, after_append,
    after_owner _ rfl, empty, empty, after_packageList user words, after_gitLines, after_shell]
  rfl

/-- Packages that stand in a list as they are are those of the owner. -/
theorem withHomeNames_of_arePackages {owner : User} (user : User)
    (arePackages : ArePackages renames owner.packages) :
    withHomeNames renames owner user = withHome owner user := by
  -- Packages under current names are entered as they are.
  rw [withHomeNames, arePackages.withNames_writtenNames]
  rfl

/-- What stands on the lines of a home fits there. -/
structure HomeFits (renames : Renames) (owner : User) : Prop where
  username : FitsLine owner.username.toList
  arePackages : ArePackages renames owner.packages
  gitName : ∀ name ∈ owner.gitName, FitsLine name.toList
  gitEmail : ∀ email ∈ owner.gitEmail, FitsLine email.toList
  shell : FitsLine owner.shell.toList

/-- What is written in a home, the packages under current names, stands on lines of a region. -/
structure LinesFit (renames : Renames) (owner : User) : Prop where
  username : FitsLine owner.username.toList
  packages : ∀ package ∈ owner.packages, FitsLine (renames.package package.name).toList
  gitName : ∀ name ∈ owner.gitName, FitsLine name.toList
  gitEmail : ∀ email ∈ owner.gitEmail, FitsLine email.toList
  shell : FitsLine owner.shell.toList

/-- A home that can be read back is written on lines of a region. -/
theorem HomeFits.linesFit {owner : User} (fits : HomeFits renames owner) :
    LinesFit renames owner where
  username := fits.username
  -- A word on a line of a list fits on it.
  packages := fun package among => (fits.arePackages.words package among).isPlain.fits
  gitName := fits.gitName
  gitEmail := fits.gitEmail
  shell := fits.shell

/-- The lines with the identity of the user fit into the region. -/
theorem allFit_gitLines {owner : User} (fits : LinesFit renames owner) : AllFit (gitLines owner) := by
  have enabled : AllFit (switchOn "enable".toList) :=
    allFit_switchOn (IsPlain.fits (by decide))
  have opening : FitsLine "programs.git = \x7b".toList := IsPlain.fits (by decide)
  have closing : FitsLine "\x7d;".toList := IsPlain.fits (by decide)
  have nothing : AllFit [] := List.forall_mem_nil _
  have named (name : String) (known : owner.gitName = some name) :
      AllFit (assignText "userName".toList name.toList) :=
    allFit_assignText (by decide) (fits.gitName name known)
  have reached (email : String) (known : owner.gitEmail = some email) :
      AllFit (assignText "userEmail".toList email.toList) :=
    allFit_assignText (by decide) (fits.gitEmail email known)
  -- The block is written in the same four cases in which it is read.
  rw [gitLines]
  cases name : owner.gitName with
  | none =>
    cases email : owner.gitEmail with
    | none => exact allFit_switchOn (IsPlain.fits (by decide))
    | some address =>
      exact allFit_block.2 ⟨opening, allFit_append.2 ⟨allFit_append.2 ⟨enabled, nothing⟩,
        reached address email⟩, closing⟩
  | some known =>
    cases email : owner.gitEmail with
    | none =>
      exact allFit_block.2 ⟨opening, allFit_append.2 ⟨allFit_append.2 ⟨enabled, named known name⟩,
        nothing⟩, closing⟩
    | some address =>
      exact allFit_block.2 ⟨opening, allFit_append.2 ⟨allFit_append.2 ⟨enabled, named known name⟩,
        reached address email⟩, closing⟩

/-- The program of a shell is a part of the shell's expression. -/
theorem fitsLine_program {owner : User} (shell : FitsLine owner.shell.toList) :
    FitsLine (program owner) := by
  rw [program]
  -- The program is a part of the shell, or the usual word.
  cases found : shellProgram? owner.shell.toList with
  | none => exact IsPlain.fits (by decide)
  | some name => exact shell.of_part (infix_of_shellProgram? found)

/-- The managed lines of a home fit into its region. -/
theorem allFit_regionLines {owner : User} (fits : LinesFit renames owner) :
    AllFit (regionLines renames owner) := by
  have opening : FitsLine "home.packages = with pkgs; [".toList := IsPlain.fits (by decide)
  have closing : FitsLine "];".toList := IsPlain.fits (by decide)
  have packages : AllFit (owner.packages.flatMap fun package =>
      line (renames.package package.name).toList) :=
    allFit_flatMap.2 fun package among => allFit_line.2 (fits.packages package among)
  -- The program of the shell is the only part of a path that comes from the user.
  have path : FitsLine ("programs.".toList ++ program owner ++ ".enable".toList) :=
    FitsLine.append_ending (FitsLine.append (by decide) (fitsLine_program fits.shell)) (by decide)
      (by decide)
  simp only [regionLines, allFit_append, allFit_block]
  exact ⟨⟨⟨⟨⟨⟨allFit_assignText (by decide) fits.username,
    allFit_assignText (by decide) (FitsLine.append (by decide) fits.username)⟩, allFit_blank⟩,
    ⟨opening, packages, closing⟩⟩, allFit_blank⟩, allFit_gitLines fits⟩, allFit_switchOn path⟩

/-- The text of a home holds the statements of its managed lines. -/
theorem statements_text {owner : User} (version : String) (fits : LinesFit renames owner) :
    statements (text renames owner version) = said (regionLines renames owner) := by
  -- All lines between the markers fit, and the notice says nothing.
  have fit : AllFit (indent (line notice ++ regionLines renames owner)) := by
    rw [allFit_indent, allFit_append]
    exact ⟨allFit_notice, allFit_regionLines fits⟩
  rw [text, lines_eq, statements_render _ 1 (fun marker isMarker =>
    not_infix_of_hash_not_mem isMarker hash_not_mem_render_opening) fit, said_indent, said_append,
    said_notice, List.nil_append]

/-- The text of a home says what is known about its owner, the packages by the names that are written. -/
theorem readUser_text_of_words {owner : User} (user : User) (version : String)
    (fits : LinesFit renames owner)
    (words : ∀ package ∈ owner.packages, IsPackageWord (renames.package package.name)) :
    readUser renames (text renames owner version) user =
      withProgram (withHomeNames renames owner user) (program owner) := by
  have read := after_regionLines_of_words user words
  rw [after] at read
  -- The statements of the file are those of its region.
  rw [readUser, statements_text version fits, read]

/-- The text of a home says what is known about its owner. -/
theorem readUser_text {owner : User} (user : User) (version : String)
    (fits : HomeFits renames owner) :
    readUser renames (text renames owner version) user =
      withProgram (withHome owner user) (program owner) := by
  -- What is read by names is read as packages, since the names are current.
  rw [readUser_text_of_words user version fits.linesFit fits.arePackages.words,
    withHomeNames_of_arePackages user fits.arePackages]

/-- A user with the account of another one; packages, identity and shell may differ. -/
structure SameAccount (user other : User) : Prop where
  username : user.username = other.username
  description : user.description = other.description
  extraGroups : user.extraGroups = other.extraGroups
  hashedPassword : user.hashedPassword = other.hashedPassword

/-- An account is the same as one that is the same as it. -/
theorem SameAccount.symm {user other : User} (same : SameAccount user other) :
    SameAccount other user :=
  -- Each of the equations is turned around.
  ⟨same.username.symm, same.description.symm, same.extraGroups.symm, same.hashedPassword.symm⟩

/-- An account is the same as one that has the same account as a third user. -/
theorem SameAccount.trans {user other third : User} (first : SameAccount user other)
    (second : SameAccount other third) : SameAccount user third :=
  -- Each pair of equations is chained.
  ⟨first.username.trans second.username, first.description.trans second.description,
    first.extraGroups.trans second.extraGroups, first.hashedPassword.trans second.hashedPassword⟩

/-- Users with the same account are the same if nothing else differs. -/
theorem SameAccount.eq {user other : User} (same : SameAccount user other)
    (shell : user.shell = other.shell) (packages : user.packages = other.packages)
    (gitName : user.gitName = other.gitName) (gitEmail : user.gitEmail = other.gitEmail) :
    user = other := by
  obtain ⟨username, description, extraGroups, hashedPassword⟩ := same
  -- The remaining fields are equal by the hypotheses.
  cases user
  cases other
  simp_all

/-- The paths under which a home tells the name of its user. -/
def namePaths : List String :=
  ["programs.git.userName", "userName"]

/-- The paths under which a home tells the address of its user. -/
def emailPaths : List String :=
  ["programs.git.userEmail", "userEmail"]

/-- How a statement of a home can change the user. -/
inductive Change (renames : Renames) (statement : Statement) (user : User) : User → Prop where
  | name (path : String) (among : path ∈ namePaths) (name : String)
      (assigned : assignedText? path statement.clean = some name) :
      Change renames statement user { user with gitName := some name }
  | email (path : String) (among : path ∈ emailPaths) (email : String)
      (assigned : assignedText? path statement.clean = some email) :
      Change renames statement user { user with gitEmail := some email }
  | packages (text : List Char) :
      Change renames statement user
        { user with packages := collectPackages renames user.packages text }
  | shell (shell : String) : Change renames statement user { user with shell }

/-- Nothing has to change. -/
theorem Change.none (statement : Statement) (user : User) : Change renames statement user user :=
  -- A change of the shell may leave it as it is.
  .shell user.shell

/-- A statement that tells a part of the identity changes this part. -/
theorem change_readIdentity? {namePath emailPath : String} {statement : Statement} {user next : User}
    (isName : namePath ∈ namePaths) (isEmail : emailPath ∈ emailPaths)
    (found : readIdentity? namePath emailPath statement.clean user = some next) :
    Change renames statement user next := by
  rw [readIdentity?] at found
  split at found
  · -- The rule for the name comes first.
    rename_i name assigned
    obtain rfl := Option.some.inj found
    exact .name namePath isName name assigned
  · obtain ⟨email, assigned, rfl⟩ := Option.map_eq_some_iff.1 found
    exact .email emailPath isEmail email assigned

/-- Every statement of a home changes one of the things named. -/
theorem change_readStatement (renames : Renames) (progress : Progress) (statement : Statement) :
    Change renames statement progress.user (readStatement renames progress statement).user := by
  rw [readStatement]
  -- The context decides first, then the rules in their order.
  split
  · rw [readTop]
    split
    · exact .packages _
    · split
      · exact .none _ _
      · split
        · rename_i told
          exact change_readIdentity? (by decide) (by decide) told
        · split
          · rw [withShell]
            split
            · exact .none _ _
            · exact .shell _
          · exact .none _ _
  · exact .packages _
  · split
    · exact .none _ _
    · split
      · rename_i told
        exact change_readIdentity? (by decide) (by decide) told
      · exact .none _ _

/-- No statement of a home changes the account of the user. -/
theorem Change.sameAccount {statement : Statement} {user next : User}
    (change : Change renames statement user next) : SameAccount next user := by
  -- None of the changes touches what the system file says of the account.
  cases change <;> exact ⟨rfl, rfl, rfl, rfl⟩

/-- Whatever a home says, the user keeps the account. -/
theorem sameAccount_readUser (text : List Char) (user : User) :
    SameAccount (readUser renames text user) user := by
  have each (found : List Statement) (progress : Progress) :
      SameAccount (found.foldl (readStatement renames) progress).user progress.user := by
    -- What one statement leaves alone, all of them leave alone.
    induction found generalizing progress with
    | nil => exact ⟨rfl, rfl, rfl, rfl⟩
    | cons statement rest ih =>
      exact (ih (readStatement renames progress statement)).trans
        (change_readStatement renames progress statement).sameAccount
  exact each (statements text) ⟨user, .top⟩

/-- Whatever a home says, the users keep their names. -/
theorem usernames_read (text : List Char) (model : Model) (index : Nat) :
    (read renames text model index).users.map (·.username) = model.users.map (·.username) :=
  -- Only one user is changed, and that one keeps the name.
  map_modify_of_keeps index fun user => (sameAccount_readUser text user).username

end NixKeeper.Files.Home
