import NixKeeper.Proofs.Files.Assignment
import NixKeeper.Proofs.Files.Entering

/-! A generated list of packages is read back. -/

namespace NixKeeper.Files

/-- A character of a package's name. -/
def isPackageChar (c : Char) : Bool :=
  Text.isPathChar c || c == '+'

/-- A word that names a package wherever it stands in a list. -/
structure IsPackageWord (name : String) : Prop where
  nonempty : name.toList ≠ []
  members : ∀ c ∈ name.toList, isPackageChar c = true
  /-- The word opens the scope of the package set. -/
  notWith : name ≠ "with"

/-- A package name that stands in a list as it is. -/
structure IsPackageName (renames : Renames) (name : String) : Prop where
  nonempty : name.toList ≠ []
  members : ∀ c ∈ name.toList, isPackageChar c = true
  /-- The word opens the scope of the package set. -/
  notWith : name ≠ "with"
  current : renames.package name = name

/-- A package name is a word that names a package. -/
theorem IsPackageName.isWord {renames : Renames} {name : String}
    (isName : IsPackageName renames name) : IsPackageWord name :=
  -- A name that stays is in particular a word that is read.
  ⟨isName.nonempty, isName.members, isName.notWith⟩

/-- No character of a package's name is blank. -/
theorem isBlank_of_isPackageChar {c : Char} (member : isPackageChar c = true) :
    Text.isBlank c = false := by
  rw [isPackageChar, Bool.or_eq_true, beq_iff_eq] at member
  -- A package character is one of a path or a plus sign, neither of them blank.
  rcases member with onPath | rfl
  · exact Text.isBlank_of_isPathChar onPath
  · rfl

/-- A package's name is plain. -/
theorem IsPackageWord.isPlain {name : String} (isWord : IsPackageWord name) :
    IsPlain name.toList :=
  -- Neither the hash sign nor a line feed is a package character.
  @isPlain_of_forall isPackageChar _ rfl rfl isWord.members

/-- A name without blanks is a single word. -/
theorem words_of_isPackageWord {name : String} (isWord : IsPackageWord name) :
    Text.words name.toList = [name.toList] := by
  -- There is no blank at which the name could be split.
  have single : name.toList.splitOnP Text.isBlank = [name.toList] :=
    List.splitOnP_eq_singleton fun c within => isBlank_of_isPackageChar (isWord.members c within)
  have present : name.toList.isEmpty = false := by simpa using isWord.nonempty
  rw [Text.words, single, List.filter_cons, present]
  rfl

/-- A text without the characters of a class keeps its end. -/
theorem dropEndWhile_of_forall {p : Char → Bool} {text : List Char}
    (free : ∀ c ∈ text, p c = false) : Text.dropEndWhile p text = text := by
  -- Dropping at the end is dropping at the beginning of the reversed text.
  have kept : text.reverse.dropWhile p = text.reverse := by
    cases reversed : text.reverse with
    | nil => rfl
    | cons c rest =>
      have last : c ∈ text := List.mem_reverse.1 (reversed ▸ List.mem_cons_self)
      rw [List.dropWhile_cons_of_neg (by simp [free c last])]
  rw [Text.dropEndWhile, kept, List.reverse_reverse]

/-- Nothing sticks to a name. -/
theorem bareWord_of_isPackageWord {name : String} (isWord : IsPackageWord name) :
    bareWord name.toList = name.toList := by
  -- None of the characters that are dropped at the ends belongs to a name.
  have free (other : Char) (noMember : isPackageChar other = false) :
      ∀ c ∈ name.toList, (c == other) = false := fun c within =>
    beq_eq_false_iff_ne.2 (Text.ne_of_class (isWord.members c within) noMember)
  have noBracket : name.toList.dropWhile (· == '[') = name.toList := by
    cases letters : name.toList with
    | nil => rfl
    | cons c rest =>
      have atHead := free '[' rfl c (letters ▸ List.mem_cons_self)
      rw [List.dropWhile_cons_of_neg (by simpa using atHead)]
  rw [bareWord, dropEndWhile_of_forall (free ';' rfl), dropEndWhile_of_forall (free ']' rfl), noBracket]

/-- A name is no word of the list's own. -/
theorem not_mem_listWords {name : String} (isWord : IsPackageWord name) :
    name.toList ∉ listWords := by
  intro among
  have apart (c : Char) (within : c ∈ name.toList) (noMember : isPackageChar c = false) : False :=
    Text.not_mem_of_class isWord.members noMember within
  simp only [listWords, List.mem_cons, List.not_mem_nil, or_false] at among
  -- All but the first of the words have a sign that no name has.
  rcases among with same | same | same | same | same
  · exact isWord.notWith (String.toList_inj.1 same)
  · exact apart ';' (same ▸ by decide) rfl
  · exact apart '[' (same ▸ by decide) rfl
  · exact apart ']' (same ▸ by decide) rfl
  · exact apart ';' (same ▸ by decide) rfl

/-- A name is the only package name in itself. -/
theorem packageWords_of_isPackageWord {name : String} (isWord : IsPackageWord name) :
    packageWords name.toList = [name.toList] := by
  obtain ⟨c, rest, letters⟩ := List.exists_cons_of_ne_nil isWord.nonempty
  -- A comment would end the words of the line.
  have noComment : (name.toList.head? != some '#') = true := by
    rw [letters, List.head?_cons, bne_iff_ne, ne_eq, Option.some.injEq]
    exact Text.ne_of_class (isWord.members c (letters ▸ List.mem_cons_self)) rfl
  have noWord : (!listWords.contains name.toList) = true := by
    simpa using not_mem_listWords isWord
  have present : (!name.toList.isEmpty) = true := by simpa using isWord.nonempty
  simp only [packageWords, words_of_isPackageWord isWord, List.takeWhile_cons, noComment, if_true,
    List.takeWhile_nil, List.filter_cons, noWord, List.filter_nil, List.map_singleton,
    bareWord_of_isPackageWord isWord, present]

/-- A line with a package name is a statement that closes no list. -/
theorem said_line_of_isPackageWord {name : String} (isWord : IsPackageWord name) :
    ∃ statement, said (line name.toList) = [statement] ∧
      listLine statement.raw = (name.toList, false) := by
  obtain ⟨c, rest, letters⟩ := List.exists_cons_of_ne_nil isWord.nonempty
  -- A name has no blanks at its ends and begins no comment.
  have trimmed : Text.trim name.toList = name.toList := Text.trim_eq_self_iff.2
    ⟨fun d first => isBlank_of_isPackageChar (isWord.members d (List.mem_of_mem_head? first)),
      fun d last => isBlank_of_isPackageChar (isWord.members d (List.mem_of_mem_getLast? last))⟩
  have isOne : isStatement name.toList = true := by
    have member := isWord.members c (letters ▸ List.mem_cons_self)
    have noHash : c ≠ '#' := Text.ne_of_class member rfl
    have noSlash : '/' ≠ c := (Text.ne_of_class member rfl).symm
    rw [letters]
    simp [isStatement, List.isPrefixOf, noHash, noSlash]
  have noBracket : ¬ [']'] <:+: name.toList := fun within =>
    Text.not_mem_of_class isWord.members rfl (within.subset List.mem_cons_self)
  refine ⟨_, by rw [said_line, statement?, trimmed, if_pos isOne]; rfl, ?_⟩
  rw [listLine, (Text.splitFirst_eq_none_iff (by decide)).2 noBracket]

/-- The packages with those of several names. -/
def withNames (renames : Renames) (packages : List Package) (names : List String) : List Package :=
  -- A package that is read is described as imported.
  names.foldl (fun packages name => (addPackage packages ⟨renames.package name, "Imported"⟩).2)
    packages

/-- Packages are collected from a text by the names in it. -/
theorem collectPackages_eq {renames : Renames} {packages : List Package} {text : List Char}
    {names : List String} (found : packageWords text = names.map String.toList) :
    collectPackages renames packages text = withNames renames packages names := by
  -- The words that are found are the names as characters.
  rw [collectPackages, found, List.foldl_map, withNames]
  simp only [String.ofList_toList]

/-- Names are added one after another. -/
theorem withNames_withNames (renames : Renames) (packages : List Package)
    (first second : List String) :
    withNames renames (withNames renames packages first) second =
      withNames renames packages (first ++ second) := by
  -- Entering is a fold, and a fold over two lists is one after another.
  rw [withNames, withNames, withNames, List.foldl_append]

/-- A package name that stands in a list by itself is added. -/
theorem collectPackages_of_isPackageWord {renames : Renames} {name : String}
    (packages : List Package) (isWord : IsPackageWord name) :
    collectPackages renames packages name.toList = withNames renames packages [name] :=
  -- A word alone is the only word that is found.
  collectPackages_eq (packageWords_of_isPackageWord isWord)

/-- The names under which packages are written, each of them on a line of its own. -/
def writtenNames (renames : Renames) (packages : List Package) : List String :=
  packages.map fun package => renames.package package.name

/-- A package that is read from a list. -/
def imported (package : Package) : Package :=
  { package with description := "Imported" }

/-- The packages with one that is read from a list; a package that is there already stays as it is. -/
abbrev withPackage (packages : List Package) (package : Package) : List Package :=
  entered Package.name Package.name (fun _ known => known) imported packages package

/-- Packages of distinct names that stand in a list as they are. -/
structure ArePackages (renames : Renames) (packages : List Package) : Prop where
  named : ∀ package ∈ packages, IsPackageName renames package.name
  distinct : DistinctBy Package.name packages

/-- Packages that stand in a list as they are are written under their own names. -/
theorem ArePackages.words {renames : Renames} {packages : List Package}
    (arePackages : ArePackages renames packages) :
    ∀ package ∈ packages, IsPackageWord (renames.package package.name) := by
  intro package among
  have named := arePackages.named package among
  -- The name is current, so renaming gives the word that stands in the list.
  exact named.current.symm ▸ named.isWord

/-- Packages that stand in a list as they are are entered one by one. -/
theorem ArePackages.withNames_writtenNames {renames : Renames} {packages : List Package}
    (arePackages : ArePackages renames packages) (known : List Package) :
    withNames renames known (writtenNames renames packages) = packages.foldl withPackage known := by
  -- A name that is current already is written and read without a change.
  have each : ∀ package ∈ packages, ∀ known : List Package,
      (addPackage known ⟨renames.package (renames.package package.name), "Imported"⟩).2 =
        withPackage known package := by
    intro package among known
    have current := (arePackages.named package among).current
    rw [current, current, addPackage, withPackage, entered]
    split
    · simp
    · rfl
  rw [withNames, writtenNames, List.foldl_map]
  exact List.foldl_ext _ _ _ fun known package among => each package among known

/-- Packages that are read where there are none are those of the list. -/
theorem foldl_withPackage_nil {packages : List Package} (distinct : DistinctBy Package.name packages) :
    packages.foldl withPackage [] = packages.map imported := by
  have none : ∀ package ∈ packages, ∀ other ∈ ([] : List Package), other.name ≠ package.name :=
    fun _ _ _ within => absurd within List.not_mem_nil
  -- No package is known before the first is entered.
  exact foldl_entered_of_new (fun _ _ => rfl) (fun _ => rfl) distinct none

/-- Packages that are read again stay as they are. -/
theorem foldl_withPackage_self (packages : List Package) :
    packages.foldl withPackage packages = packages :=
  -- Every package is known already.
  foldl_entered_of_known (fun package among => ⟨package, among, rfl⟩) fun _ _ _ _ _ => rfl

end NixKeeper.Files
