import NixKeeper.Proofs.Files.Home
import NixKeeper.Proofs.Files.SystemFile.Repetition

/-! Files that are read a second time say nothing new. -/

namespace NixKeeper.Files

variable {renames : Renames} {placeholder : String}

namespace Home

/--
A shell that is read again.

It is as it was in the end, or as the first reading has it now. It may also have been given the same
program in other words; then another program is switched on later.
-/
def ShellRegained (now later final : String) : Prop :=
  -- The shell stays also where a shell with the same program was known.
  later = now ∨ later = final ∨
    (shellProgram? later.toList = shellProgram? now.toList ∧
      shellProgram? now.toList ≠ shellProgram? final.toList)

/-- A shell that has been regained is as it was. -/
theorem ShellRegained.eq {later final : String} (regained : ShellRegained final later final) :
    later = final := by
  rcases regained with same | same | ⟨-, different⟩
  · exact same
  · exact same
  -- The third way would need the final shell to differ from itself.
  · exact absurd rfl different

/-- A shell that is switched on is named so that its program is known again. -/
theorem shellProgram?_of_enabledShell? {clean program : List Char}
    (enabled : enabledShell? clean = some program) :
    shellProgram? (String.ofList ("pkgs.".toList ++ program)).toList = some program := by
  have known : String.ofList program ∈ knownShells := by
    simp only [enabledShell?, Option.bind_eq_bind, Option.bind_eq_some_iff] at enabled
    obtain ⟨path, -, other, -, chosen⟩ := enabled
    split at chosen
    · rename_i isKnown
      rw [← Option.some.inj chosen]
      exact List.contains_iff_mem.1 isKnown
    · cases chosen
  -- The known shells are few, so each is looked at.
  have each : ∀ shell ∈ knownShells,
      shellProgram? ("pkgs.".toList ++ shell.toList) = some shell.toList := by decide
  have named := each _ known
  have same : (String.ofList program).toList = program := String.toList_ofList
  rw [same] at named
  rw [String.toList_ofList]
  exact named

/-- A program that is switched on changes nothing but the shell of the user. -/
theorem withShell_eq (user : User) (program : List Char) :
    withShell user program = { user with shell := (withShell user program).shell } := by
  rw [withShell]
  -- Whether the shell is replaced or kept, no other field is touched.
  split <;> rfl

/-- The shell after a program was switched on has this program. -/
theorem shellProgram?_withShell {user : User} {program : List Char}
    (named : shellProgram? (String.ofList ("pkgs.".toList ++ program)).toList = some program) :
    shellProgram? (withShell user program).shell.toList = some program := by
  rw [withShell]
  -- A shell that gives the program already is kept, and another is replaced by one that does.
  split
  · assumption
  · exact named

/-- Switching a program on does not make the shells of both readings drift apart. -/
theorem ShellRegained.withShell {now later : User} {final : String} {program : List Char}
    (regained : ShellRegained now.shell later.shell final)
    (named : shellProgram? (String.ofList ("pkgs.".toList ++ program)).toList = some program) :
    ShellRegained (withShell now program).shell (withShell later program).shell final := by
  have nowHas := @shellProgram?_withShell now _ named
  have laterHas := @shellProgram?_withShell later _ named
  -- A shell that has the program already keeps its words, any other one gets the usual words.
  rcases regained with same | same | ⟨same, different⟩
  · refine .inl ?_
    rw [Home.withShell, Home.withShell, same]
    split
    · exact same
    · rfl
  · by_cases kept : shellProgram? later.shell.toList = some program
    · refine .inr (.inl ?_)
      rw [Home.withShell, if_pos kept, same]
    · -- The program is not the one that is left in the end.
      refine .inr (.inr ⟨laterHas.trans nowHas.symm, ?_⟩)
      rw [nowHas, ← same]
      exact Ne.symm kept
  · by_cases kept : shellProgram? now.shell.toList = some program
    · refine .inr (.inr ⟨laterHas.trans nowHas.symm, ?_⟩)
      rw [nowHas, ← kept]
      exact different
    · refine .inl ?_
      rw [Home.withShell, Home.withShell, same, if_neg kept, if_neg kept]

/-- A second reading of a home that has come as far as a first one, which ends with a given user. -/
structure Repeats (final : User) (now later : Progress) : Prop where
  context : later.context = now.context
  gitName : Regained User.gitName (some now.user) later.user final
  gitEmail : Regained User.gitEmail (some now.user) later.user final
  shell : ShellRegained now.user.shell later.user.shell final.shell
  packages : later.user.packages = final.packages

/-- Packages of the user are added behind those that are there. -/
theorem Change.prefix_packages {statement : Statement} {user next : User}
    (change : Change renames statement user next) : user.packages <+: next.packages := by
  cases change with
  | name | email => exact List.prefix_rfl
  -- Only a list of packages touches the packages, and it adds to the end.
  | packages text => exact prefix_collectPackages _ _
  | shell shell => exact List.prefix_rfl

/-- Packages of the user are there to the end. -/
theorem packages_foldl (found : List Statement) (progress : Progress) :
    progress.user.packages <+: (found.foldl (readStatement renames) progress).user.packages := by
  induction found generalizing progress with
  | nil => exact List.prefix_rfl
  -- Each statement makes one change.
  | cons statement rest ih =>
    exact (change_readStatement renames progress statement).prefix_packages.trans (ih _)

namespace Repeats

variable {final : User} {now later : Progress}

/-- A list of packages adds nothing in the second reading. -/
theorem readPackages (repeats : Repeats final now later) (part : List Char × Bool)
    (within : (readPackages renames now part).user.packages.map (·.name) ⊆
      final.packages.map (·.name)) :
    Repeats final (readPackages renames now part) (readPackages renames later part) := by
  -- The names are known to the end already, and the later progress has the packages of the end.
  have same : collectPackages renames later.user.packages part.1 = later.user.packages :=
    collectPackages_of_subset (repeats.packages ▸ within)
  exact { repeats with context := rfl, packages := same.trans repeats.packages }

/-- An identity is read by both readings or by none. -/
theorem readIdentity? (repeats : Repeats final now later) (name email : String) (clean : List Char) :
    (readIdentity? name email clean now.user = none ∧
        readIdentity? name email clean later.user = none) ∨
      ∃ next nextLater, readIdentity? name email clean now.user = some next ∧
        readIdentity? name email clean later.user = some nextLater ∧
        Repeats final { now with user := next } { later with user := nextLater } := by
  -- What a line assigns does not depend on the user.
  unfold Home.readIdentity?
  cases assignedText? name clean with
  | some found => exact .inr ⟨_, _, rfl, rfl, { repeats with gitName := .inr rfl }⟩
  | none =>
    cases assignedText? email clean with
    | some found => exact .inr ⟨_, _, rfl, rfl, { repeats with gitEmail := .inr rfl }⟩
    | none => exact .inl ⟨rfl, rfl⟩

/-- A line outside of lists and blocks does the same in both readings. -/
theorem readTop (repeats : Repeats final now later) (statement : Statement)
    (within : (readTop renames now statement).user.packages.map (·.name) ⊆
      final.packages.map (·.name)) :
    Repeats final (readTop renames now statement) (readTop renames later statement) := by
  unfold Home.readTop at within ⊢
  dsimp only at within ⊢
  -- The rules are tried in the same order in both readings.
  split at within
  · rename_i packages
    rw [if_pos packages, if_pos packages]
    exact repeats.readPackages _ within
  · rename_i noPackages
    rw [if_neg noPackages, if_neg noPackages]
    split
    · exact { repeats with context := rfl }
    · -- The block of the identity has been ruled out, so the line may still name one of its texts.
      rcases repeats.readIdentity? "programs.git.userName" "programs.git.userEmail"
        statement.clean with ⟨none, noneLater⟩ | ⟨next, nextLater, some, someLater, again⟩
      · rw [none, noneLater]
        cases enabled : enabledShell? statement.clean with
        | none => exact repeats
        | some program =>
          have named := shellProgram?_of_enabledShell? enabled
          dsimp only
          rw [withShell_eq now.user, withShell_eq later.user]
          exact { repeats with shell := repeats.shell.withShell named }
      · rw [some, someLater]
        exact again

/-- A statement does the same in both readings. -/
theorem readStatement (repeats : Repeats final now later) (statement : Statement)
    (within : (readStatement renames now statement).user.packages.map (·.name) ⊆
      final.packages.map (·.name)) :
    Repeats final (readStatement renames now statement) (readStatement renames later statement) := by
  unfold Home.readStatement at within ⊢
  rw [repeats.context]
  -- The context is the same in both readings, and tells which rules apply.
  cases here : now.context with
  | top => exact repeats.readTop statement (by simpa only [here] using within)
  | packages => exact repeats.readPackages _ (by simpa only [here] using within)
  | git =>
    dsimp only
    split
    · exact { repeats with context := rfl }
    · rcases repeats.readIdentity? "userName" "userEmail" statement.clean with
        ⟨none, noneLater⟩ | ⟨next, nextLater, some, someLater, again⟩
      · rw [none, noneLater]
        exact repeats
      · rw [some, someLater]
        exact { again with context := rfl }

/-- Both readings stay together to the end. -/
theorem foldl (found : List Statement) (repeats : Repeats final now later)
    (within : (found.foldl (Home.readStatement renames) now).user.packages.map (·.name) ⊆
      final.packages.map (·.name)) :
    Repeats final (found.foldl (Home.readStatement renames) now)
      (found.foldl (Home.readStatement renames) later) := by
  induction found generalizing now later with
  | nil => exact repeats
  | cons statement rest ih =>
    -- The packages of now are there to the end, so they are among the final ones.
    have grows := (@packages_foldl renames rest
      (Home.readStatement renames now statement)).map (·.name)
    exact ih (repeats.readStatement statement (List.Subset.trans grows.subset within)) within

end Repeats

/--
A home says nothing new to the user that it has made.

The shell may be the one from before, since the file of the machine may have set it again.
-/
theorem readUser_again {text : List Char} {user later : User}
    (account : SameAccount later user)
    (packages : later.packages = (readUser renames text user).packages)
    (gitName : later.gitName = (readUser renames text user).gitName)
    (gitEmail : later.gitEmail = (readUser renames text user).gitEmail)
    (shell : later.shell = user.shell ∨ later.shell = (readUser renames text user).shell) :
    readUser renames text later = readUser renames text user := by
  have regained : ShellRegained user.shell later.shell (readUser renames text user).shell := by
    rcases shell with same | same
    · exact .inl same
    · exact .inr (.inl same)
  have begins : Repeats (readUser renames text user) ⟨user, .top⟩ ⟨later, .top⟩ :=
    ⟨rfl, .inl gitName, .inl gitEmail, regained, packages⟩
  -- The packages that the first reading has in the end are those of the user made by it.
  have ends := begins.foldl (statements text) (List.Subset.refl _)
  have again : Repeats (readUser renames text user) ⟨readUser renames text user, .top⟩
      ⟨readUser renames text later, .top⟩ := { ends with context := rfl }
  have same : SameAccount (readUser renames text later) (readUser renames text user) :=
    (sameAccount_readUser text later).trans (account.trans (sameAccount_readUser text user).symm)
  exact same.eq again.shell.eq again.packages again.gitName.eq again.gitEmail.eq

end Home

namespace Manifest

/-- Another release at the beginning makes a difference only as long as none is told. -/
theorem foldl_readStatement_again (found : List Statement) (nixVersion other : String)
    (sources : List Source) :
    (found.foldl readStatement ⟨other, sources⟩).sources =
        (found.foldl readStatement ⟨nixVersion, sources⟩).sources ∧
      ((found.foldl readStatement ⟨other, sources⟩).nixVersion =
          (found.foldl readStatement ⟨nixVersion, sources⟩).nixVersion ∨
        (found.foldl readStatement ⟨nixVersion, sources⟩).nixVersion = nixVersion ∧
          (found.foldl readStatement ⟨other, sources⟩).nixVersion = other) := by
  -- The release that is told last decides; both readings are told the same ones.
  induction found generalizing nixVersion other sources with
  | nil => exact ⟨rfl, .inr ⟨rfl, rfl⟩⟩
  | cons statement rest ih =>
    rw [List.foldl_cons, List.foldl_cons, readStatement, readStatement]
    cases source? statement.clean with
    | none => exact ih nixVersion other sources
    | some source =>
      dsimp only
      split
      · exact ⟨rfl, .inl rfl⟩
      · split
        · exact ih nixVersion other sources
        · exact ih nixVersion other _

/-- A manifest says nothing new where the release and the sources are those that it has told. -/
theorem read_again {text : List Char} {base later : Model}
    (nixVersion : later.nixVersion = (read text base).nixVersion)
    (sources : later.sources = (read text base).sources) : read text later = later := by
  unfold read at nixVersion sources ⊢
  cases told : statements text with
  | nil => rfl
  | cons statement rest =>
    rw [told] at nixVersion sources
    obtain ⟨sameSources, change⟩ :=
      foldl_readStatement_again (statement :: rest) base.nixVersion later.nixVersion []
    -- Either a release is told, and it is the one in place, or the one in place stays.
    have sameVersion : ((statement :: rest).foldl readStatement ⟨later.nixVersion, []⟩).nixVersion =
        later.nixVersion := by
      rcases change with same | ⟨-, kept⟩
      · exact same.trans nixVersion.symm
      · exact kept
    dsimp only at sources ⊢
    rw [sameVersion, sameSources, ← sources]

end Manifest

open SystemFile Home

/-- A user who is read again from the file of the machine keeps the account. -/
theorem SystemFile.UserAgrees.sameAccount {user later final : User} (agrees : UserAgrees (some user) later final)
    (same : SameAccount user final) (named : later.username = final.username) :
    SameAccount later final :=
  -- Each field was regained, so it is the final one where the account is the same.
  ⟨named, agrees.description.eq_of_eq same.description, agrees.extraGroups.eq_of_eq same.extraGroups,
    agrees.hashedPassword.eq_of_eq same.hashedPassword⟩

/-- A user in whom all is regained is as it was. -/
theorem SystemFile.UserAgrees.eq {later final : User} (agrees : UserAgrees (some final) later final)
    (named : later.username = final.username) : later = final :=
  -- What was read last is the final user, so every field has its final value.
  (agrees.sameAccount ⟨rfl, rfl, rfl, rfl⟩ named).eq agrees.shell.eq agrees.packages agrees.gitName
    agrees.gitEmail

/-- Users who are read again from the file of the machine are known to their home. -/
theorem modify_readUser_of_follows {text : List Char} {users later : List User}
    (follows : Follows User.username UserAgrees users later
      (users.modify 0 (readUser renames text))) :
    later.modify 0 (readUser renames text) = users.modify 0 (readUser renames text) := by
  obtain ⟨names, agree⟩ := follows
  cases users with
  | nil => rw [List.map_eq_nil_iff.1 names]
  | cons user rest =>
    cases later with
    | nil => cases names
    | cons first others =>
      -- Only the first user has a home here; the others have been regained already.
      obtain ⟨named, others⟩ := List.cons.inj names
      have agrees : UserAgrees (some user) first (readUser renames text user) :=
        agree 0 _ _ rfl rfl
      have account := agrees.sameAccount (sameAccount_readUser text user).symm named
      have shell : first.shell = user.shell ∨ first.shell = (readUser renames text user).shell := by
        rcases agrees.shell with kept | read
        · exact .inr kept
        · exact .inl (Option.some.inj read).symm
      have again : readUser renames text first = readUser renames text user :=
        readUser_again (account.trans (sameAccount_readUser text user)) agrees.packages
          agrees.gitName agrees.gitEmail shell
      have tail : Follows User.username UserAgrees rest _ rest :=
        ⟨others, fun index item known there inEnd => agree (index + 1) item known there inEnd⟩
      rw [List.modify_zero_cons, List.modify_zero_cons, again,
        tail.eq fun _ _ agrees named => agrees.eq named]

/--
Files that are read into a model that was read from them change nothing.

A user whose block is read under the placeholder name would lose the name to the next one, so the file
of the machine opens no such block.
-/
theorem readFiles_readFiles (texts : FileKind → List Char) (base : Model)
    (unclaimed : placeholder ∉ openedUsers renames placeholder (texts .system)) :
    readFiles renames placeholder texts (readFiles renames placeholder texts base) =
      readFiles renames placeholder texts base := by
  have shape (model : Model) : readFiles renames placeholder texts model =
      Home.read renames (texts .home) (SystemFile.read renames placeholder (texts .system)
        (Manifest.read (texts .manifest) model)) 0 := rfl
  rw [shape (readFiles renames placeholder texts base), shape base]
  -- The first reading of the system file, and the home that is read into what it has left.
  generalize opened : Manifest.read (texts .manifest) base = started
  obtain ⟨nixVersion, sources⟩ : (SystemFile.read renames placeholder (texts .system) started).nixVersion =
      started.nixVersion ∧ (SystemFile.read renames placeholder (texts .system) started).sources =
        started.sources :=
    (@grows_foldl renames placeholder (statements (texts .system)) ⟨started, .top, []⟩).manifest
  generalize first : SystemFile.read renames placeholder (texts .system) started = model at *
  -- The other files leave the release and the sources alone, so the manifest finds its own.
  have manifest : Manifest.read (texts .manifest) (Home.read renames (texts .home) model 0) =
      Home.read renames (texts .home) model 0 :=
    Manifest.read_again (nixVersion.trans (congrArg _ opened.symm))
      (sources.trans (congrArg _ opened.symm))
  have names : (Home.read renames (texts .home) model 0).users.map (·.username) =
      model.users.map (·.username) :=
    map_modify_of_keeps 0 fun user => (sameAccount_readUser (texts .home) user).username
  obtain ⟨users, again, follows⟩ := @exists_read_again renames placeholder (texts .system) started
    (Home.read renames (texts .home) model 0) unclaimed (first ▸ rfl) (first ▸ names)
  rw [manifest, again]
  rw [first] at follows
  unfold Home.read at follows ⊢
  dsimp only at follows ⊢
  rw [modify_readUser_of_follows follows]

/-- Files in which the block of a user is opened twice, and a home that names another shell. -/
def repeatedTexts : FileKind → List Char
  | .manifest => []
  -- The first block sets a shell, and the second is empty.
  | .system => Managed.beginMarker ++
      "\nusers.users.ada = \x7b\nshell = pkgs.fish;\n\x7d;\nusers.users.ada = \x7b\n\x7d;\n".toList ++
      Managed.endMarker
  | .home => Managed.beginMarker ++ "\nprograms.zsh.enable = true;\n".toList ++ Managed.endMarker

/-- The initial model takes nothing from these files that it would not keep. -/
theorem readFiles_readFiles_repeatedTexts :
    openedUsers .builtin placeholderName (repeatedTexts .system) = ["ada"] ∧
      readFiles .builtin placeholderName repeatedTexts
          (readFiles .builtin placeholderName repeatedTexts .initial) =
        readFiles .builtin placeholderName repeatedTexts .initial := by
  have opened : openedUsers .builtin placeholderName (repeatedTexts .system) = ["ada"] := by
    decide
  -- The files do not mention the placeholder.
  have unclaimed : placeholderName ∉ openedUsers .builtin placeholderName (repeatedTexts .system) := by
    rw [opened]
    decide
  exact ⟨opened, readFiles_readFiles repeatedTexts .initial unclaimed⟩

end NixKeeper.Files
