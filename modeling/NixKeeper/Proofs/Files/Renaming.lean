import NixKeeper.Proofs.Files.RoundTrip
import NixKeeper.Proofs.Files.Soundness
import NixKeeper.Proofs.Model.Resolution

/-!
Which lists of packages are written again as they were, after they have been read.

Names are looked up when a list is written and when it is read. So a package that is written, read and written
again has been looked up three times, and its line is the same again exactly if the last two times make no
difference to the name that was written first.
-/

namespace NixKeeper.Files

section Repetition

variable {α β : Type} [DecidableEq α] [DecidableEq β] {items : List α}

/-- One more item follows the others unless it is among them. -/
theorem eraseDups_concat (items : List α) (item : α) : (items ++ [item]).eraseDups =
    if item ∈ items then items.eraseDups else items.eraseDups ++ [item] := by
  -- The item at the end is kept only where none equal to it stands before it.
  rw [List.eraseDups_append]
  by_cases known : item ∈ items <;> simp [List.removeAll, known, List.eraseDups_cons]

/-- It makes no difference whether repetitions are left out before items are changed. -/
theorem eraseDups_map_eraseDups (change : α → β) (items : List α) :
    (items.eraseDups.map change).eraseDups = (items.map change).eraseDups := by
  -- From the end of the list: an item that is there already counts on neither side.
  induction items using List.reverseRecOn with
  | nil => rfl
  | append_singleton items item ih =>
    rw [List.map_append, List.map_singleton, eraseDups_concat, eraseDups_concat]
    by_cases known : item ∈ items
    · rw [if_pos known, if_pos (List.mem_map_of_mem known), ih]
    · rw [if_neg known, List.map_append, List.map_singleton, eraseDups_concat, ih]
      simp only [List.mem_map, List.mem_eraseDups]

/-- A change of the items brings no items in. -/
theorem length_eraseDups_map_le (change : α → β) (items : List α) :
    (items.map change).eraseDups.length ≤ items.eraseDups.length := by
  induction items using List.reverseRecOn with
  | nil => exact Nat.le_refl _
  | append_singleton items item ih =>
    -- The last item counts only if it is new, and then its image may be known already.
    rw [List.map_append, List.map_singleton, eraseDups_concat, eraseDups_concat]
    by_cases known : item ∈ items
    · rw [if_pos known, if_pos (List.mem_map_of_mem known)]
      exact ih
    · rw [if_neg known, List.length_append, List.length_singleton]
      split
      · exact ih.trans (Nat.le_succ _)
      · rw [List.length_append, List.length_singleton]
        exact Nat.succ_le_succ ih

/-- A change leaves the items as they are, up to repetition, only if it changes none of them. -/
theorem eraseDups_map_eq_iff {change : α → α} :
    (items.map change).eraseDups = items.eraseDups ↔ ∀ item ∈ items, change item = item := by
  refine ⟨fun same => ?_, fun same => by rw [List.map_congr_left same, List.map_id']⟩
  -- From the end of the list, where the last item is new to both sides or known to both.
  induction items using List.reverseRecOn with
  | nil => exact List.forall_mem_nil _
  | append_singleton items item ih =>
    rw [List.map_append, List.map_singleton, eraseDups_concat, eraseDups_concat] at same
    by_cases known : item ∈ items
    · rw [if_pos known, if_pos (List.mem_map_of_mem known)] at same
      have before := ih same
      exact List.forall_mem_append.2 ⟨before, List.forall_mem_singleton.2 (before item known)⟩
    · rw [if_neg known] at same
      split at same
      · -- The items would have become fewer.
        have lengths := congrArg List.length same
        have fewer := length_eraseDups_map_le change items
        rw [List.length_append, List.length_singleton] at lengths
        omega
      · obtain ⟨before, last⟩ := List.append_inj' same rfl
        exact List.forall_mem_append.2
          ⟨ih before, List.forall_mem_singleton.2 (List.singleton_inj.1 last)⟩

/-- Different items that are changed into different ones repeat each other as before. -/
theorem eraseDups_map_of_injective {change : α → β} (injective : change.Injective) :
    (items.map change).eraseDups = items.eraseDups.map change := by
  induction items using List.reverseRecOn with
  | nil => rfl
  | append_singleton items item ih =>
    -- The last item is known on both sides or on neither.
    have member : change item ∈ items.map change ↔ item ∈ items :=
      List.mem_map_of_injective injective
    rw [List.map_append, List.map_singleton, eraseDups_concat, eraseDups_concat, ih]
    by_cases known : item ∈ items
    · rw [if_pos known, if_pos (member.2 known)]
    · rw [if_neg known, if_neg (mt member.1 known), List.map_append, List.map_singleton]

end Repetition

variable {renames : Renames} {packages : List Package}

/-- The lines for the packages of a list, each of them under its current name. -/
def nameLines (renames : Renames) (packages : List Package) : List Line :=
  packages.flatMap fun package => line (renames.package package.name).toList

/-- The lines of the packages for all users stand between the brackets of their list. -/
theorem packageLines_eq : SystemFile.packageLines renames packages =
    block "environment.systemPackages = with pkgs; [".toList (nameLines renames packages)
      "];".toList :=
  -- The list is the block between the two fixed lines.
  rfl

/-- The lines of the packages of a user stand between the brackets of their list. -/
theorem exists_homePackageLines (owner : User) : ∃ before behind, Home.regionLines renames owner =
    before ++ block "home.packages = with pkgs; [".toList (nameLines renames owner.packages)
      "];".toList ++ behind :=
  -- The name and the place of the user come first, and the programs follow.
  ⟨assignText "home.username".toList owner.username.toList ++
      assignText "home.homeDirectory".toList ("/home/".toList ++ owner.username.toList) ++ blank,
    blank ++ Home.gitLines owner ++ Home.enableProgram (Home.program owner), by
      simp only [Home.regionLines, Home.program, nameLines, List.append_assoc]⟩

/-- Each line says a name. -/
theorem nameLines_eq : nameLines renames packages =
    (writtenNames renames packages).map fun name => ⟨0, name.toList⟩ := by
  -- Each name gives one line, so the lists of lines are joined as a list of items.
  rw [nameLines, writtenNames, List.map_map]
  exact List.map_eq_flatMap.symm

/-- Two lists of packages have the same lines, up to repetition. -/
def SameLines (renames : Renames) (packages others : List Package) : Prop :=
  (nameLines renames packages).eraseDups = (nameLines renames others).eraseDups

instance (renames : Renames) (packages others : List Package) :
    Decidable (SameLines renames packages others) :=
  inferInstanceAs (Decidable (_ = _))

/-- Lines are the same up to repetition if the names are. -/
theorem sameLines_iff {others : List Package} : SameLines renames packages others ↔
      (writtenNames renames packages).eraseDups = (writtenNames renames others).eraseDups := by
  -- A line shows its name, so lines repeat each other where names do.
  have injective : (fun name : String => (⟨0, name.toList⟩ : Line)).Injective := by
    intro first second same
    exact String.toList_inj.1 (congrArg Line.text same)
  rw [SameLines, nameLines_eq, nameLines_eq, eraseDups_map_of_injective injective,
    eraseDups_map_of_injective injective, injective.list_map.eq_iff]

/-- The names that are known after names have been read are their current names. -/
theorem map_name_withNames (names : List String) :
    (withNames renames [] names).map (·.name) = (names.map renames.package).eraseDups := by
  -- Names are read one after another, and each is added at the end if it is new by then.
  induction names using List.reverseRecOn with
  | nil => rfl
  | append_singleton names name ih =>
    rw [← withNames_withNames, List.map_append, List.map_singleton, eraseDups_concat, ← ih]
    change ((addPackage (withNames renames [] names) _).2).map (·.name) = _
    rw [map_name_addPackage, withName]
    simp only [ih, List.mem_eraseDups]

/-- The name under which a package is written is found again by two more lookups. -/
def ComesBack (renames : Renames) (package : Package) : Prop :=
  renames.package (renames.package (renames.package package.name)) = renames.package package.name

/-- A package of which the current name is final comes back. -/
theorem comesBack_of_settled {package : Package} (settled :
    renames.package (renames.package package.name) = renames.package package.name) :
    ComesBack renames package := by
  -- A settled name is renamed to itself when the list is written and when it is read.
  rw [ComesBack, settled, settled]

/--
Packages that are read by their written names have the same lines again exactly if each of them comes
back.
-/
theorem sameLines_withNames_iff :
    SameLines renames (withNames renames [] (writtenNames renames packages)) packages ↔
      ∀ package ∈ packages, ComesBack renames package := by
  -- Written again, each package has been looked up two times more than at first.
  have names : writtenNames renames (withNames renames [] (writtenNames renames packages)) =
      ((withNames renames [] (writtenNames renames packages)).map (·.name)).map renames.package := by
    rw [writtenNames, List.map_map]
    rfl
  have again : (writtenNames renames (withNames renames []
      (writtenNames renames packages))).eraseDups =
        ((writtenNames renames packages).map fun name =>
          renames.package (renames.package name)).eraseDups := by
    rw [names, map_name_withNames, eraseDups_map_eraseDups, List.map_map]
    rfl
  rw [sameLines_iff, again, eraseDups_map_eq_iff, writtenNames, List.forall_mem_map]
  rfl

/-- The packages that are read from a system file are those whose names are written there. -/
theorem SystemFile.packages_read_text {placeholder : String} {model base : Model}
    (linesFit : SystemFile.LinesFit renames model) (fits : SystemFile.RestFits renames model)
    (words : ∀ package ∈ model.system.packages, IsPackageWord (renames.package package.name))
    (distinct : DistinctBy Service.name base.system.services) :
    (SystemFile.read renames placeholder (SystemFile.text renames model) base).system.packages =
      withNames renames base.system.packages (writtenNames renames model.system.packages) := by
  -- Reading the whole file back is known, and its packages are those of the list.
  obtain ⟨found, preset⟩ := SystemFile.exists_presetRead model.system
  rw [SystemFile.read_text_of_words linesFit fits words preset distinct]
  rfl

/-- A shell that is switched on leaves the packages of the user alone. -/
theorem Home.packages_withProgram (user : User) (program : List Char) :
    (Home.withProgram user program).packages = user.packages := by
  rw [Home.withProgram, Home.withShell]
  -- The program decides on the shell alone.
  split
  · split <;> rfl
  · rfl

/-- The packages that are read from a home are those whose names are written there. -/
theorem Home.packages_readUser_text {owner : User} (user : User) (version : String)
    (fits : Home.LinesFit renames owner)
    (words : ∀ package ∈ owner.packages, IsPackageWord (renames.package package.name)) :
    (Home.readUser renames (Home.text renames owner version) user).packages =
      withNames renames user.packages (writtenNames renames owner.packages) := by
  -- Behind the list only the shell is still to be read.
  rw [Home.readUser_text_of_words user version fits words, Home.packages_withProgram]
  rfl

/--
When renaming settles in one step, and when a list of packages is written again as it was.

Names behind a single package set or none are settled by one lookup exactly if the names that the table
gives to bare names are current already. A list that is written, read and written again has the same lines
exactly if the name on each line comes back, in the system file as in a home. The lines are those that stand
between the brackets of the list in the file.
-/
theorem renaming_settles_iff (renames : Renames) :
    ((∀ name, ¬ "pkgs.pkgs.".toList <+: name.toList →
        renames.package (renames.package name) = renames.package name) ↔
      ∀ entry ∈ renames.packages.entries, ¬ "pkgs.".toList <+: entry.1.toList →
        renames.package entry.2 = entry.2) ∧
    (∀ placeholder model base, SystemFile.LinesFit renames model →
      SystemFile.RestFits renames model →
      (∀ package ∈ model.system.packages, IsPackageWord (renames.package package.name)) →
      base.system.packages = [] → DistinctBy Service.name base.system.services →
      (SameLines renames
          (SystemFile.read renames placeholder (SystemFile.text renames model) base).system.packages
          model.system.packages ↔
        ∀ package ∈ model.system.packages, ComesBack renames package)) ∧
    (∀ (owner user : User) (version : String), Home.LinesFit renames owner →
      (∀ package ∈ owner.packages, IsPackageWord (renames.package package.name)) →
      user.packages = [] →
      (SameLines renames (Home.readUser renames (Home.text renames owner version) user).packages
          owner.packages ↔
        ∀ package ∈ owner.packages, ComesBack renames package)) ∧
    (∀ packages, SystemFile.packageLines renames packages =
      block "environment.systemPackages = with pkgs; [".toList (nameLines renames packages)
        "];".toList) ∧
    ∀ owner, ∃ before behind, Home.regionLines renames owner =
      before ++ block "home.packages = with pkgs; [".toList (nameLines renames owner.packages)
        "];".toList ++ behind := by
  -- Either file is read into no packages, so what is known afterwards is what stood on its lines.
  refine ⟨Renames.package_package_iff, ?_, ?_, fun _ => packageLines_eq,
    fun owner => exists_homePackageLines owner⟩
  · intro placeholder model base linesFit fits words none distinct
    rw [SystemFile.packages_read_text linesFit fits words distinct, none]
    exact sameLines_withNames_iff
  · intro owner user version fits words none
    rw [Home.packages_readUser_text user version fits words, none]
    exact sameLines_withNames_iff

/-- A machine with packages that have other names now, or that are named behind their package set. -/
def formerModel : Model :=
  -- Two of the packages have one current name, and one has a prefix.
  { Model.initial with
    system := { System.initial with
      packages := [⟨"nerdfonts", ""⟩, ⟨"pkgs.vim", ""⟩, ⟨"nerd-fonts", ""⟩] } }

/-- Two of them are one package today, which is written and read under its final name. -/
theorem renaming_settles_formerModel :
    (∀ name, ¬ "pkgs.pkgs.".toList <+: name.toList →
        Renames.builtin.package (Renames.builtin.package name) = Renames.builtin.package name) ∧
      SameLines .builtin
        (SystemFile.read .builtin placeholderName (SystemFile.text .builtin formerModel)
          bareModel).system.packages formerModel.system.packages ∧
      SameLines .builtin (Home.readUser .builtin
        (Home.text .builtin (homeOwner .initial) "nixos-unstable") (.named "ada")).packages
        (homeOwner .initial).packages := by
  have written : writtenNames .builtin formerModel.system.packages =
      ["nerd-fonts.symbols-only", "vim", "nerd-fonts.symbols-only"] := by
    decide
  have isWord : IsPackageWord "nerd-fonts.symbols-only" ∧ IsPackageWord "vim" :=
    ⟨⟨by decide, List.all_eq_true.1 (by decide), by decide⟩,
      ⟨by decide, List.all_eq_true.1 (by decide), by decide⟩⟩
  -- What has to be a word is the name that is written, and those names are known.
  have words : ∀ package ∈ formerModel.system.packages,
      IsPackageWord (Renames.builtin.package package.name) := by
    intro package among
    have isWritten : Renames.builtin.package package.name ∈
        writtenNames .builtin formerModel.system.packages := List.mem_map_of_mem among
    simp only [written, List.mem_cons, List.not_mem_nil, or_false] at isWritten
    rcases isWritten with same | same | same <;> rw [same]
    exacts [isWord.1, isWord.2, isWord.1]
  have initial := isReadable_initial
  have linesFit : SystemFile.LinesFit .builtin formerModel :=
    { initial.system.linesFit with
      packages := fun package among => (words package among).isPlain.fits }
  have fits : SystemFile.RestFits .builtin formerModel :=
    ⟨initial.system.rest.features, initial.system.rest.areServices,
      initial.system.rest.areAccounts, initial.system.rest.layout⟩
  obtain ⟨names, system, home, -⟩ := renaming_settles_iff .builtin
  -- No package name has the prefix twice, so writing the name once settles it.
  have settled := names.2 (by decide)
  have single : ∀ package ∈ formerModel.system.packages,
      ¬ "pkgs.pkgs.".toList <+: package.name.toList := by
    decide
  refine ⟨settled, (system placeholderName formerModel bareModel linesFit fits words rfl .nil).2
    fun package among => comesBack_of_settled (settled _ (single package among)), ?_⟩
  exact (home _ _ _ initial.home.linesFit initial.home.arePackages.words rfl).2
    (List.forall_mem_nil _)

/-- Names that were current are renamed once more. -/
def chainedRenames : Renames :=
  -- The new name of one package is the former name of another.
  .withOverrides { Renames.empty with
    packages := .ofList [("nerd-fonts.symbols-only", "nerd-fonts.fira-code")] }

/-- A machine with a package under a former name. -/
def fontModel : Model :=
  { bareModel with system := { bareModel.system with packages := [⟨"nerdfonts", ""⟩] } }

/-- A name that is renamed twice, and one behind two package sets, are not settled by one lookup. -/
theorem not_settled_chainedRenames :
    chainedRenames.package (chainedRenames.package "nerdfonts") ≠
        chainedRenames.package "nerdfonts" ∧
      ¬ SameLines chainedRenames
        (SystemFile.read chainedRenames placeholderName (SystemFile.text chainedRenames fontModel)
          bareModel).system.packages fontModel.system.packages ∧
      Renames.builtin.package (Renames.builtin.package "pkgs.pkgs.vim") ≠
        Renames.builtin.package "pkgs.pkgs.vim" := by
  -- All names here are closed texts, which the table and the reader are run on.
  decide +kernel

end NixKeeper.Files
