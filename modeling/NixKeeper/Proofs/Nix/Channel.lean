import NixKeeper.Nix.Channel
import NixKeeper.Proofs.Text.Blank
import NixKeeper.Proofs.Text.Search
import NixKeeper.Text.Name

/-!
The channel of a machine is read back from the address of its package collection.

A version that is short for a channel, or is named like its branch, is read back as the channel.
-/

namespace NixKeeper.Nix

/-- A channel in the form in which it is read back. -/
structure IsChannel (version : List Char) : Prop where
  onPath : ∀ c ∈ version, Text.isPathChar c = true
  /-- Branches are named in this way, and the names of channels are made from them. -/
  notBranch : ¬ "release-".toList <+: version
  /-- The word alone stands for the channel that follows development. -/
  notUnstable : version ≠ "unstable".toList
  /-- The words before a release number may be left out, but are written. -/
  notRelease : isRelease version = false

/-- A branch that is not named for a release is a channel. -/
theorem channelOfUrl_append {branch : List Char} (address : List Char) (noSlash : '/' ∉ branch)
    (notBranch : ¬ "release-".toList <+: branch) :
    channelOfUrl (address ++ '/' :: branch) = branch := by
  -- The branch is all that stands behind the last slash.
  rw [channelOfUrl, Text.afterLast_append_cons address noSlash,
    Text.isPrefixOf?_eq_none_iff.2 notBranch]

/-- The branch of a release belongs to the channel of the release. -/
theorem channelOfUrl_append_release {number : List Char} (address : List Char)
    (noSlash : '/' ∉ number) :
    channelOfUrl (address ++ '/' :: ("release-".toList ++ number)) = "nixos-".toList ++ number := by
  -- The branch is what stands behind the last slash.
  have apart : '/' ∉ "release-".toList ++ number := by
    rw [List.mem_append, not_or]
    exact ⟨by decide, noSlash⟩
  have behind : "release-".toList.isPrefixOf? ("release-".toList ++ number) = some number :=
    List.isPrefixOf?_eq_some_iff_append_eq.2 rfl
  rw [channelOfUrl, Text.afterLast_append_cons address apart, behind]

/-- A release number consists of two digits, a point and two digits. -/
theorem exists_digits_of_isRelease {text : List Char} (release : isRelease text = true) :
    ∃ a b c d : Char, text = [a, b, '.', c, d] ∧ a.isDigit = true ∧ b.isDigit = true ∧
      c.isDigit = true ∧ d.isDigit = true := by
  unfold isRelease at release
  split at release
  · -- Only texts of five characters get past the match.
    rename_i a b point c d
    simp only [Bool.and_eq_true, beq_iff_eq] at release
    obtain ⟨⟨⟨⟨first, second⟩, rfl⟩, third⟩, fourth⟩ := release
    exact ⟨a, b, c, d, rfl, first, second, third, fourth⟩
  · contradiction

/-- The digits and the point of a release number stand in a path. -/
theorem onPath_of_isRelease {number : List Char} (release : isRelease number = true) :
    ∀ c ∈ number, Text.isPathChar c = true := by
  obtain ⟨a, b, c, d, rfl, first, second, third, fourth⟩ := exists_digits_of_isRelease release
  -- A release is four digits and a point.
  have point : Text.isPathChar '.' = true := rfl
  simp [Text.isPathChar_of_isDigit, first, second, third, fourth, point]

/-- A release number has no slash. -/
theorem slash_not_mem_of_isRelease {text : List Char} (release : isRelease text = true) :
    '/' ∉ text :=
  -- The slash is on no path.
  Text.not_mem_of_class (onPath_of_isRelease release) rfl

/-- The channel is read back from the address of the branch that belongs to it. -/
theorem channelOfUrl_packagesBranch {version : List Char} (address : List Char)
    (channel : IsChannel version) :
    channelOfUrl (address ++ '/' :: packagesBranch version) = version := by
  -- The branch is what stands behind the last slash.
  have noSlash : '/' ∉ version := Text.not_mem_of_class channel.onPath rfl
  rw [packagesBranch]
  split
  · rename_i development
    -- The other name of the development channel is excluded.
    rw [← development.resolve_right channel.notUnstable,
      channelOfUrl_append address noSlash channel.notBranch]
  · dsimp only
    cases dropped : "nixos-".toList.isPrefixOf? version with
    | none =>
      -- A number without the words before it would be read back with them.
      have whole : Text.dropBeginning "nixos-".toList version = version := by
        rw [Text.dropBeginning, dropped, Option.getD_none]
      rw [whole, channel.notRelease, if_neg Bool.false_ne_true,
        channelOfUrl_append address noSlash channel.notBranch]
    | some number =>
      have shape : "nixos-".toList ++ number = version :=
        List.append_eq_of_isPrefixOf?_eq_some dropped
      have rest : Text.dropBeginning "nixos-".toList version = number := by
        rw [Text.dropBeginning, dropped, Option.getD_some]
      rw [rest]
      split
      · rename_i release
        rw [channelOfUrl_append_release address (slash_not_mem_of_isRelease release), shape]
      · rw [channelOfUrl_append address noSlash channel.notBranch]

/-- A character of a branch stands in its version already, or in a word of a path. -/
theorem mem_of_mem_packagesBranch {version : List Char} {c : Char} (within : c ∈ packagesBranch version) :
    c ∈ version ∨ Text.isPathChar c = true := by
  -- Each branch is the version, a word, or a word before what is left of the version.
  have inWord {word : List Char} (plain : word.all Text.isPathChar = true) (inWord : c ∈ word) :
      c ∈ version ∨ Text.isPathChar c = true :=
    .inr (List.all_eq_true.1 plain c inWord)
  rw [packagesBranch] at within
  split at within
  · exact inWord (by decide) within
  · dsimp only at within
    split at within
    · rcases List.mem_append.1 within with word | number
      · exact inWord (by decide) word
      · -- What is left of the version is an ending of it.
        rw [Text.dropBeginning] at number
        cases dropped : "nixos-".toList.isPrefixOf? version with
        | none =>
          rw [dropped, Option.getD_none] at number
          exact .inl number
        | some rest =>
          have whole := List.append_eq_of_isPrefixOf?_eq_some dropped
          rw [dropped, Option.getD_some] at number
          exact .inl (whole ▸ List.mem_append_right _ number)
    · exact .inl within

/-- A character of the home manager's branch stands in the version already, or in a word of a path. -/
theorem mem_of_mem_homeManagerBranch {version : List Char} {c : Char}
    (within : c ∈ homeManagerBranch version) : c ∈ version ∨ Text.isPathChar c = true := by
  rw [homeManagerBranch] at within
  -- The branch is a fixed word, or formed as the other one is.
  split at within
  · exact .inr (List.all_eq_true.1 (by decide) c within)
  · exact mem_of_mem_packagesBranch within

/-- The branch for a channel stands in a path. -/
theorem onPath_packagesBranch {version : List Char} (onPath : ∀ c ∈ version, Text.isPathChar c = true) :
    ∀ c ∈ packagesBranch version, Text.isPathChar c = true :=
  -- The branch adds only characters of a path.
  fun c within => (mem_of_mem_packagesBranch within).elim (onPath c) id

/-- The branch of the home manager for a channel stands in a path. -/
theorem onPath_homeManagerBranch {version : List Char}
    (onPath : ∀ c ∈ version, Text.isPathChar c = true) :
    ∀ c ∈ homeManagerBranch version, Text.isPathChar c = true :=
  -- The branch adds only characters of a path.
  fun c within => (mem_of_mem_homeManagerBranch within).elim (onPath c) id

/-- The release number in a channel, or the one that takes its place, stands in a path. -/
theorem onPath_stateVersion (version : List Char) :
    ∀ c ∈ stateVersion version, Text.isPathChar c = true := by
  rw [stateVersion]
  -- The number found is a release number, and the one in its place is fixed.
  cases found : Text.findFirst release? version with
  | none => exact List.all_eq_true.1 (by decide)
  | some number =>
    obtain ⟨rest, -, known⟩ := Text.exists_of_findFirst found
    rw [release?] at known
    split at known
    · rename_i release
      cases known
      exact onPath_of_isRelease release
    · contradiction

/-- A version to follow: a word of a path, and the name of a branch only where a release has that branch. -/
structure IsVersion (version : List Char) : Prop where
  onPath : ∀ c ∈ version, Text.isPathChar c = true
  ofRelease : ∀ number, version = "release-".toList ++ number → isRelease number = true

/-- A channel is a version. -/
theorem IsChannel.isVersion {version : List Char} (channel : IsChannel version) : IsVersion version where
  onPath := channel.onPath
  -- A channel's name is no branch of its own, so no release stands behind the prefix.
  ofRelease := fun number whole => absurd ⟨number, whole.symm⟩ channel.notBranch

/-- The channel that a version stands for. -/
def fullName (version : List Char) : List Char :=
  if version = "unstable".toList then unstableChannel
  else
    -- A release is named by its number, or by its branch.
    let number := Text.dropBeginning "release-".toList version
    if isRelease number then "nixos-".toList ++ number else version

/-- A text that begins with a letter is no release number. -/
theorem isRelease_cons_of_not_digit {c : Char} (letter : c.isDigit = false) (rest : List Char) :
    isRelease (c :: rest) = false := by
  apply Bool.eq_false_iff.2
  intro release
  -- A release number begins with a digit.
  obtain ⟨a, _, _, _, whole, digit, -⟩ := exists_digits_of_isRelease release
  obtain ⟨rfl, -⟩ := List.cons.inj whole
  exact Bool.false_ne_true (letter.symm.trans digit)

/-- Words that do not begin with a digit are skipped in the search for a release number. -/
theorem stateVersion_append {word : List Char} (letters : word.any Char.isDigit = false)
    (rest : List Char) : stateVersion (word ++ rest) = stateVersion rest := by
  induction word with
  | nil => rfl
  | cons c word ih =>
    obtain ⟨letter, later⟩ := Bool.or_eq_false_iff.1 letters
    -- No release number begins with a letter.
    have nothing : release? (c :: (word ++ rest)) = none := by
      rw [release?, List.take_succ_cons, isRelease_cons_of_not_digit letter]
      rfl
    have behind : stateVersion (c :: (word ++ rest)) = stateVersion (word ++ rest) := by
      rw [stateVersion, Text.findFirst, nothing]
      rfl
    rw [List.cons_append, behind, ih later]

/-- The words before a release number tell its channel from other versions. -/
theorem isChannel_of_isRelease {number : List Char} (release : isRelease number = true) :
    IsChannel ("nixos-".toList ++ number) where
  onPath := by
    -- The words are those of a path, and so are the digits and the point.
    intro c within
    rcases List.mem_append.1 within with word | inNumber
    · exact List.all_eq_true.1 (by decide) c word
    · exact onPath_of_isRelease release c inNumber
  notBranch := by simp
  notUnstable := by simp
  notRelease := isRelease_cons_of_not_digit rfl _

/-- A version with a point in it does not follow development. -/
theorem packagesBranch_of_point {version : List Char} (point : '.' ∈ version) :
    packagesBranch version = if isRelease (Text.dropBeginning "nixos-".toList version) then
      "release-".toList ++ Text.dropBeginning "nixos-".toList version else version := by
  -- The two names for development have no point.
  have numbered : ¬ (version = unstableChannel ∨ version = "unstable".toList) := by
    rintro (same | same)
    · exact absurd (same ▸ point) (by decide)
    · exact absurd (same ▸ point) (by decide)
  rw [packagesBranch, if_neg numbered]

/-- A release number is written in three ways, one of which is its channel. -/
theorem packagesBranch_of_isRelease {number : List Char} (release : isRelease number = true) :
    packagesBranch number = "release-".toList ++ number ∧
      packagesBranch ("release-".toList ++ number) = "release-".toList ++ number ∧
      packagesBranch ("nixos-".toList ++ number) = "release-".toList ++ number := by
  -- Of the words before the number, only those of a channel are dropped.
  have branch : isRelease ("release-".toList ++ number) = false := isRelease_cons_of_not_digit rfl _
  have shortened : Text.dropBeginning "nixos-".toList ("nixos-".toList ++ number) = number := rfl
  have kept : Text.dropBeginning "nixos-".toList ("release-".toList ++ number) =
      "release-".toList ++ number := rfl
  obtain ⟨a, b, c, d, whole, digit, -⟩ := exists_digits_of_isRelease release
  have point : '.' ∈ number := by simp [whole]
  have bare : Text.dropBeginning "nixos-".toList number = number := by
    have other : 'n' ≠ a := by
      rintro rfl
      exact absurd digit (by decide)
    simp [whole, Text.dropBeginning, List.isPrefixOf?, other]
  refine ⟨?_, ?_, ?_⟩
  · rw [packagesBranch_of_point point, bare, release, if_pos rfl]
  · rw [packagesBranch_of_point (List.mem_append_right _ point), kept, branch,
      if_neg Bool.false_ne_true]
  · rw [packagesBranch_of_point (List.mem_append_right _ point), shortened, release, if_pos rfl]

/-- A version stands for itself, for the channel that follows development, or for that of a release. -/
theorem IsVersion.fullName_cases {version : List Char} (isVersion : IsVersion version) :
    (IsChannel version ∧ fullName version = version) ∨
      (version = "unstable".toList ∧ fullName version = unstableChannel) ∨
      ∃ number, isRelease number = true ∧ fullName version = "nixos-".toList ++ number ∧
        (version = number ∨ version = "release-".toList ++ number) := by
  -- The word for development and the prefix of a branch are ruled out in turn.
  by_cases unstable : version = "unstable".toList
  · exact .inr (.inl ⟨unstable, by rw [fullName, if_pos unstable]⟩)
  cases dropped : "release-".toList.isPrefixOf? version with
  | some number =>
    have whole : version = "release-".toList ++ number :=
      (List.append_eq_of_isPrefixOf?_eq_some dropped).symm
    have release := isVersion.ofRelease number whole
    refine .inr (.inr ⟨number, release, ?_, .inr whole⟩)
    have rest : Text.dropBeginning "release-".toList version = number := by
      rw [Text.dropBeginning, dropped, Option.getD_some]
    simp only [fullName, if_neg unstable, rest, release, if_true]
  | none =>
    have rest : Text.dropBeginning "release-".toList version = version := by
      rw [Text.dropBeginning, dropped, Option.getD_none]
    cases release : isRelease version with
    | true =>
      refine .inr (.inr ⟨version, release, ?_, .inl rfl⟩)
      simp only [fullName, if_neg unstable, rest, release, if_true]
    | false =>
      refine .inl ⟨⟨isVersion.onPath, Text.isPrefixOf?_eq_none_iff.1 dropped, unstable, release⟩, ?_⟩
      simp only [fullName, if_neg unstable, rest, release, Bool.false_eq_true, if_false]

/-- The full name of a version is a channel. -/
theorem IsVersion.isChannel_fullName {version : List Char} (isVersion : IsVersion version) :
    IsChannel (fullName version) := by
  -- It is the version itself, the channel of development or that of a release.
  rcases isVersion.fullName_cases with ⟨channel, same⟩ | ⟨-, same⟩ | ⟨number, release, same, -⟩
  · exact same.symm ▸ channel
  · rw [same]
    exact ⟨List.all_eq_true.1 (by decide), by decide, by decide, by decide⟩
  · exact same.symm ▸ isChannel_of_isRelease release

/-- A version pins the branches and the release that its full name pins. -/
theorem IsVersion.pins_fullName {version : List Char} (isVersion : IsVersion version) :
    packagesBranch (fullName version) = packagesBranch version ∧
      homeManagerBranch (fullName version) = homeManagerBranch version ∧
      stateVersion (fullName version) = stateVersion version := by
  -- The branch of the home manager is chosen by the branch of the packages alone.
  suffices both : packagesBranch (fullName version) = packagesBranch version ∧
      stateVersion (fullName version) = stateVersion version by
    refine ⟨both.1, ?_, both.2⟩
    rw [homeManagerBranch, both.1, homeManagerBranch]
  rcases isVersion.fullName_cases with ⟨-, same⟩ | ⟨rfl, same⟩ | ⟨number, release, same, written⟩
  · rw [same]
    exact ⟨rfl, rfl⟩
  · rw [same]
    decide
  · obtain ⟨ofNumber, ofBranch, ofChannel⟩ := packagesBranch_of_isRelease release
    have channel : stateVersion ("nixos-".toList ++ number) = stateVersion number :=
      stateVersion_append (by decide) number
    have branch : stateVersion ("release-".toList ++ number) = stateVersion number :=
      stateVersion_append (by decide) number
    rw [same, ofChannel, channel]
    rcases written with rfl | rfl
    · exact ⟨ofNumber.symm, rfl⟩
    · exact ⟨ofBranch.symm, branch.symm⟩

/-- The full name of a version is read back from the address of the branch that belongs to it. -/
theorem IsVersion.channelOfUrl_packagesBranch {version : List Char} (address : List Char)
    (isVersion : IsVersion version) :
    channelOfUrl (address ++ '/' :: packagesBranch version) = fullName version := by
  -- The branch is the one of the full name, which is a channel.
  rw [← isVersion.pins_fullName.1]
  exact Nix.channelOfUrl_packagesBranch address isVersion.isChannel_fullName

/-- A channel stands for itself. -/
theorem IsChannel.fullName_eq_self {version : List Char} (channel : IsChannel version) :
    fullName version = version := by
  -- Both are what is read back from one address.
  rw [← channel.isVersion.channelOfUrl_packagesBranch [], channelOfUrl_packagesBranch [] channel]

end NixKeeper.Nix
