import Mathlib.Data.List.Infix
import NixKeeper.Proofs.Files.Assignment
import NixKeeper.Proofs.Files.PackageList
import NixKeeper.Proofs.Files.Regaining

/-!
Lists of packages with comments behind the names.

A line is cut at its first closing bracket before its comment is recognised. So the names on a line are
read whatever its comment says, but a bracket in the comment ends the list, and the lines below it are
read as if they stood outside of it.
-/

namespace NixKeeper.Files

/-- The names on a line of a list of packages, and the text of the comment behind them. -/
structure ListPart where
  names : List String
  comment : Option (List Char)

namespace ListPart

/-- The comment with the sign before it. -/
def ending (part : ListPart) : List Char :=
  -- A comment is written behind the sign for it.
  match part.comment with
  | some comment => " # ".toList ++ comment
  | none => []

/-- The names, each behind a blank. -/
def listed (part : ListPart) : List Char :=
  part.names.flatMap fun name => ' ' :: name.toList

/-- What stands on the line. -/
def text (part : ListPart) : List Char :=
  part.listed ++ part.ending

/-- The line without its comment. -/
def bare (part : ListPart) : ListPart :=
  { part with comment := none }

/-- A closing bracket stands in the comment. -/
def brackets (part : ListPart) : Bool :=
  part.ending.contains ']'

/-- Words that name packages, and a comment that ends neither its line nor the region. -/
structure Fits (part : ListPart) : Prop where
  words : ∀ name ∈ part.names, IsPackageWord name
  ending : FitsLine part.ending

end ListPart

/-- Lines of a list below the one that opens it. -/
def partLines (parts : List ListPart) : List Line :=
  parts.flatMap fun part => line part.text

/-- The line that opens a list of packages, and the lines below it. -/
structure PackageListing where
  opening : ListPart
  parts : List ListPart

namespace PackageListing

/-- The words before the names on the line that opens a list. -/
def beginning (path : String) : List Char :=
  path.toList ++ " = with pkgs; [".toList

/-- The lines of the list under a path, the closing bracket on a line of its own. -/
def lines (listing : PackageListing) (path : String) : List Line :=
  -- The list is a block between its opening and its bracket.
  block (beginning path ++ listing.opening.text)
    (partLines listing.parts) "];".toList

/-- The list without comments. -/
def bare (listing : PackageListing) : PackageListing :=
  ⟨listing.opening.bare, listing.parts.map (·.bare)⟩

/-- Every line fits. -/
structure Fits (listing : PackageListing) : Prop where
  opening : listing.opening.Fits
  parts : ∀ part ∈ listing.parts, part.Fits

end PackageListing

/-- A line with names, unless it holds nothing but a comment, ends the list by a bracket in its comment. -/
def ListPart.endsList (part : ListPart) : Bool :=
  !part.names.isEmpty && part.brackets

/-- The lines of a list up to the first one that ends it by its comment. -/
def keptParts : List ListPart → List ListPart
  -- The part with the bracket is still read, up to the bracket.
  | [] => []
  | part :: rest => if part.endsList then [part] else part :: keptParts rest

/-- The lines of a list below the first one that ends it by its comment. -/
def lostParts : List ListPart → List ListPart
  -- Everything behind the part with the bracket is lost.
  | [] => []
  | part :: rest => if part.endsList then rest else lostParts rest

/-- The names that are read from a list. -/
def PackageListing.kept (listing : PackageListing) : List String :=
  -- The opening may already hold the bracket.
  if listing.opening.brackets then listing.opening.names
  else listing.opening.names ++ (keptParts listing.parts).flatMap (·.names)

/-- The lines of a list that are read as if they stood outside of it. -/
def PackageListing.lost (listing : PackageListing) : List ListPart :=
  if listing.opening.brackets then listing.parts else lostParts listing.parts

/-- A blank before a text does not change its words. -/
theorem words_cons_of_isBlank {c : Char} (blank : Text.isBlank c = true) (rest : List Char) :
    Text.words (c :: rest) = Text.words rest := by
  -- The blank only ends an empty stretch, which is no word.
  simp [Text.words, List.splitOnP_cons_eq_if_modifyHead, blank]

/-- A word ends where a blank or nothing follows it. -/
theorem words_append {word rest : List Char} (shown : ∀ c ∈ word, Text.isBlank c = false)
    (nonempty : word ≠ []) (begins : ∀ c ∈ rest.head?, Text.isBlank c = true) :
    Text.words (word ++ rest) = word :: Text.words rest := by
  have present : word.isEmpty = false := by simpa using nonempty
  have single : word.splitOnP Text.isBlank = [word] := List.splitOnP_eq_singleton shown
  -- The word is a part of its own as soon as a blank follows.
  cases rest with
  | nil => simp [Text.words, single, present]
  | cons c rest =>
    have blank : Text.isBlank c = true := begins c rfl
    rw [words_cons_of_isBlank blank, Text.words, List.splitOnP_append_cons _ _ blank, single,
      List.singleton_append, List.filter_cons, present]
    rfl

/-- What follows names on a line: nothing, or a comment. -/
def IsEnding (ending : List Char) : Prop :=
  ending = [] ∨ ∃ comment, ending = ' ' :: '#' :: comment

/-- What follows the names of a line is an ending. -/
theorem ListPart.isEnding (part : ListPart) : IsEnding part.ending := by
  -- A part ends with its comment, or with nothing.
  rw [ListPart.ending]
  split
  · exact .inr ⟨_, rfl⟩
  · exact .inl rfl

/-- The words of names and of what follows them. -/
theorem words_names_append {names : List String} {ending : List Char}
    (areWords : ∀ name ∈ names, IsPackageWord name) (isEnding : IsEnding ending) :
    Text.words (names.flatMap (fun name => ' ' :: name.toList) ++ ending) =
      names.map String.toList ++ Text.words ending := by
  have begins : ∀ c ∈ ending.head?, Text.isBlank c = true := by
    rcases isEnding with rfl | ⟨comment, rfl⟩ <;> simp [Text.isBlank]
  induction names with
  | nil => rfl
  | cons name rest ih =>
    obtain ⟨isWord, others⟩ := List.forall_mem_cons.1 areWords
    -- The next name stands behind a blank, and so does a comment.
    have next : ∀ c ∈ (rest.flatMap (fun name => ' ' :: name.toList) ++ ending).head?,
        Text.isBlank c = true := by
      cases rest with
      | nil => exact begins
      | cons other more => simp [Text.isBlank]
    rw [List.flatMap_cons, List.cons_append, List.cons_append, List.append_assoc,
      words_cons_of_isBlank rfl,
      words_append (fun c within => isBlank_of_isPackageChar (isWord.members c within))
        isWord.nonempty next,
      ih others, List.map_cons, List.cons_append]

/-- The words of a comment begin with the sign for one. -/
theorem takeWhile_words_of_isEnding {ending : List Char} (isEnding : IsEnding ending) :
    (Text.words ending).takeWhile (·.head? != some '#') = [] := by
  rcases isEnding with rfl | ⟨comment, rfl⟩
  · rfl
  · rw [words_cons_of_isBlank rfl]
    -- The first word goes on up to the first blank behind the sign.
    cases rest : comment.splitOnP Text.isBlank with
    | nil => exact absurd rest (List.splitOnP_ne_nil _ _)
    | cons first more =>
      have split : ('#' :: comment).splitOnP Text.isBlank = ('#' :: first) :: more := by
        rw [List.splitOnP_cons_eq_if_modifyHead, rest]
        rfl
      rw [Text.words, split]
      rfl

/-- The package names on a line are those before the comment. -/
theorem packageWords_names_append {names : List String} {ending : List Char}
    (areWords : ∀ name ∈ names, IsPackageWord name) (isEnding : IsEnding ending) :
    packageWords (names.flatMap (fun name => ' ' :: name.toList) ++ ending) =
      names.map String.toList := by
  -- A name is none of the words that the reader drops: no comment, no bracket and no brace.
  have uncommented : ∀ word ∈ names.map String.toList, (word.head? != some '#') = true := by
    rw [List.forall_mem_map]
    intro name among
    obtain ⟨c, rest, letters⟩ := List.exists_cons_of_ne_nil (areWords name among).nonempty
    have member := (areWords name among).members c (letters ▸ List.mem_cons_self)
    rw [letters, List.head?_cons, bne_iff_ne, ne_eq, Option.some.injEq]
    exact Text.ne_of_class member rfl
  have others : ∀ word ∈ names.map String.toList, (!listWords.contains word) = true := by
    rw [List.forall_mem_map]
    intro name among
    simpa using not_mem_listWords (areWords name among)
  have bareWords : (names.map String.toList).map bareWord = names.map String.toList := by
    rw [List.map_map]
    exact List.map_congr_left fun name among => bareWord_of_isPackageWord (areWords name among)
  have present : ∀ word ∈ names.map String.toList, (!word.isEmpty) = true := by
    rw [List.forall_mem_map]
    intro name among
    simpa using (areWords name among).nonempty
  rw [packageWords, words_names_append areWords isEnding, List.takeWhile_append_of_pos uncommented,
    takeWhile_words_of_isEnding isEnding, List.append_nil, List.filter_eq_self.2 others, bareWords,
    List.filter_eq_self.2 present]

/-- A separator is looked for behind a text without one. -/
theorem splitFirst_append_of_not_mem {separator : Char} {front : List Char}
    (free : separator ∉ front) (rest : List Char) :
    Text.splitFirst [separator] (front ++ rest) =
      (Text.splitFirst [separator] rest).map fun (before, after) => (front ++ before, after) := by
  induction front with
  | nil => simp
  | cons c front ih =>
    rw [List.mem_cons, not_or] at free
    -- The separator does not begin at a character that is not its own.
    have absent : ¬ [separator] <+: c :: (front ++ rest) := by simpa using free.1
    rw [List.cons_append, Text.splitFirst_cons_of_not_begins absent, ih free.2, Option.map_map]
    rfl

/-- Behind a text without brackets a line is cut where it is cut by itself. -/
theorem listLine_append {front : List Char} (free : ']' ∉ front) (rest : List Char) :
    listLine (front ++ rest) = (front ++ (listLine rest).1, (listLine rest).2) := by
  rw [listLine, splitFirst_append_of_not_mem free, listLine]
  cases Text.splitFirst [']'] rest <;> rfl

/-- A line closes its list by a bracket anywhere. -/
theorem listLine_snd (raw : List Char) : (listLine raw).2 = raw.contains ']' := by
  rw [listLine, Bool.eq_iff_iff, List.contains_iff_mem]
  -- Whether the line can be cut at a bracket is whether it holds one.
  cases cut : Text.splitFirst [']'] raw with
  | none =>
    rw [Text.splitFirst_eq_none_iff (by decide), List.singleton_infix_iff] at cut
    simpa using cut
  | some parts =>
    obtain ⟨whole, -⟩ := (Text.splitFirst_eq_some_iff (by decide)).1 cut
    simp [whole]

/-- What follows the names is cut to nothing or to a comment. -/
theorem isEnding_listLine {ending : List Char} (isEnding : IsEnding ending) :
    IsEnding (listLine ending).1 := by
  rcases isEnding with rfl | ⟨comment, rfl⟩
  · exact .inl rfl
  · have free : ']' ∉ [' ', '#'] := by decide
    -- The bracket can only stand behind the sign for the comment.
    exact .inr ⟨_, congrArg Prod.fst (listLine_append free comment)⟩

/-- Names with blanks before them have no other characters. -/
theorem not_mem_names {names : List String} (areWords : ∀ name ∈ names, IsPackageWord name)
    {c : Char} (noMember : isPackageChar c = false) (noBlank : c ≠ ' ') :
    c ∉ names.flatMap fun name => ' ' :: name.toList := by
  intro within
  obtain ⟨name, among, inName⟩ := List.mem_flatMap.1 within
  -- A character among the names is a blank before one, or belongs to one.
  rcases List.mem_cons.1 inName with isBlank | inName
  · exact noBlank isBlank
  · exact Text.not_mem_of_class (areWords name among).members noMember inName

/-- A line of names is read up to its comment, and closes the list by a bracket in the comment. -/
theorem listLine_names_append {names : List String} {ending : List Char}
    (areWords : ∀ name ∈ names, IsPackageWord name) (isEnding : IsEnding ending) :
    packageWords (listLine (names.flatMap (fun name => ' ' :: name.toList) ++ ending)).1 =
        names.map String.toList ∧
      (listLine (names.flatMap (fun name => ' ' :: name.toList) ++ ending)).2 =
        ending.contains ']' := by
  have free : ']' ∉ names.flatMap fun name => ' ' :: name.toList :=
    not_mem_names areWords rfl (by decide)
  rw [listLine_append free]
  exact ⟨packageWords_names_append areWords (isEnding_listLine isEnding), listLine_snd ending⟩

/-- What is left of an ending without blanks and semicolons behind it. -/
structure TrimmedTo (ending comment : List Char) : Prop where
  isEnding : IsEnding comment
  dropped : ∃ more, ending = comment ++ more ∧ ∀ c ∈ more, Text.isBlank c = true ∨ c = ';'

/-- At most a semicolon is dropped. -/
theorem exists_dropSemicolon_append (text : List Char) :
    ∃ more, text = dropSemicolon text ++ more ∧ ∀ c ∈ more, c = ';' := by
  rcases List.eq_nil_or_concat text with rfl | ⟨before, last, rfl⟩
  · exact ⟨[], rfl, by simp⟩
  · rw [List.concat_eq_append]
    -- Only a semicolon at the very end is dropped.
    by_cases closed : last = ';'
    · subst closed
      exact ⟨[';'], by rw [dropSemicolon_concat], by simp⟩
    · have unclosed : (before ++ [last]).getLast? ≠ some ';' := by simpa using closed
      exact ⟨[], by rw [dropSemicolon_of_ne unclosed, List.append_nil], by simp⟩

/-- Blanks, a semicolon and blanks before it are dropped one after another. -/
theorem exists_trimmed_append (text : List Char) :
    ∃ more, text = Text.trimEnd (dropSemicolon (Text.trimEnd text)) ++ more ∧
      ∀ c ∈ more, Text.isBlank c = true ∨ c = ';' := by
  obtain ⟨blanks, whole, areBlank⟩ := Text.exists_dropEndWhile_append Text.isBlank text
  obtain ⟨signs, shorter, areSemicolons⟩ := exists_dropSemicolon_append (Text.trimEnd text)
  obtain ⟨others, shortest, alsoBlank⟩ := Text.exists_dropEndWhile_append Text.isBlank
    (dropSemicolon (Text.trimEnd text))
  -- The three stretches are put back in the opposite order.
  refine ⟨others ++ (signs ++ blanks), ?_, ?_⟩
  · rw [← List.append_assoc, Text.trimEnd, ← shortest, ← List.append_assoc, ← shorter]
    exact whole
  · intro c among
    simp only [List.mem_append] at among
    rcases among with isBlank | isSemicolon | isBlank
    · exact .inl (alsoBlank c isBlank)
    · exact .inr (areSemicolons c isSemicolon)
    · exact .inl (areBlank c isBlank)

/-- The sign for a comment is not blank. -/
theorem trimEnd_comment (comment : List Char) :
    Text.trimEnd (' ' :: '#' :: comment) = ' ' :: '#' :: Text.trimEnd comment :=
  -- The sign for the comment is no blank, so only the comment loses its end.
  @Text.trimEnd_append [' ', '#'] comment (by simp [Text.isBlank])

/-- An ending stays one without the blanks behind it. -/
theorem isEnding_trimEnd {ending : List Char} (isEnding : IsEnding ending) :
    IsEnding (Text.trimEnd ending) := by
  -- The sign for the comment stays, whatever is trimmed behind it.
  rcases isEnding with rfl | ⟨comment, rfl⟩
  · exact .inl rfl
  · exact .inr ⟨_, trimEnd_comment comment⟩

/-- Brackets are not among the blanks behind a text. -/
theorem contains_trimEnd (text : List Char) :
    (Text.trimEnd text).contains ']' = text.contains ']' := by
  rw [Bool.eq_iff_iff, List.contains_iff_mem, List.contains_iff_mem]
  obtain ⟨blanks, whole, blank⟩ := Text.exists_dropEndWhile_append Text.isBlank text
  change text = Text.trimEnd text ++ blanks at whole
  constructor
  · intro within
    rw [whole]
    exact List.mem_append_left _ within
  · intro within
    rw [whole] at within
    -- A bracket is no blank, so it was not dropped.
    refine (List.mem_append.1 within).resolve_right fun dropped => ?_
    exact absurd (blank _ dropped) (by decide)

/-- A line that begins with a character of a name, and has a comment or nothing behind it, is a statement. -/
theorem exists_statement_append {front : List Char} {c : Char} (head : front.head? = some c)
    (member : isPackageChar c = true)
    (last : ∀ c ∈ front.getLast?, Text.isBlank c = false ∧ c ≠ ';') (part : ListPart) :
    ∃ comment, TrimmedTo part.ending comment ∧
      statement? (front ++ part.ending) =
        some ⟨front ++ Text.trimEnd part.ending, front ++ comment⟩ := by
  obtain ⟨rest, rfl⟩ := List.head?_eq_some_iff.1 head
  have shown : ∀ d ∈ (c :: rest).getLast?, Text.isBlank d = false := fun d isLast => (last d isLast).1
  have unclosed : (c :: rest).getLast? ≠ some ';' := fun closed => (last ';' closed).2 rfl
  have trimmed : Text.trim (c :: rest ++ part.ending) = c :: rest ++ Text.trimEnd part.ending := by
    have start : Text.trimStart (c :: rest ++ part.ending) = c :: rest ++ part.ending :=
      Text.trimStart_eq_self_iff.2 (by simpa using isBlank_of_isPackageChar member)
    rw [Text.trim, start, Text.trimEnd_append _ shown]
  have isOne : isStatement (c :: rest ++ Text.trimEnd part.ending) = true := by
    have noHash : c ≠ '#' := Text.ne_of_class member rfl
    have noSlash : '/' ≠ c := (Text.ne_of_class member rfl).symm
    simp [isStatement, List.isPrefixOf, noHash, noSlash]
  rcases part.isEnding with nothing | ⟨comment, something⟩
  · -- Without a comment the text is the statement as it stands.
    refine ⟨[], ⟨.inl rfl, [], by rw [nothing, List.append_nil], by simp⟩, ?_⟩
    rw [statement?, trimmed, if_pos isOne, nothing]
    have kept : Text.trimEnd (c :: rest) = c :: rest := Text.trimEnd_eq_self_iff.2 shown
    have empty : Text.trimEnd [] = [] := rfl
    rw [empty, List.append_nil, dropSemicolon_of_ne unclosed, kept]
  · obtain ⟨more, whole, dropped⟩ := exists_trimmed_append comment
    refine ⟨' ' :: '#' :: Text.trimEnd (dropSemicolon (Text.trimEnd comment)),
      ⟨.inr ⟨_, rfl⟩, more, ?_, dropped⟩, ?_⟩
    · rw [something, List.cons_append, List.cons_append, ← whole]
    · -- The text before the comment ends with the sign for it, which is never dropped.
      have sign : (c :: rest ++ [' ', '#']).getLast? = some '#' :=
        List.getLast?_append_of_ne_nil _ (List.cons_ne_nil _ _)
      have unclosed : (c :: rest ++ [' ', '#']).getLast? ≠ some ';' := by
        rw [sign]
        decide
      have step := dropSemicolon_append (Text.trimEnd comment) unclosed
      have kept := Text.trimEnd_append (dropSemicolon (Text.trimEnd comment))
        (Text.forall_getLast?_of_eq sign rfl)
      simp only [List.append_assoc, List.cons_append, List.nil_append] at step kept
      rw [statement?, trimmed, if_pos isOne, something, trimEnd_comment]
      simp only [List.cons_append, step, kept]

namespace ListPart

variable {part : ListPart}

/-- A line of names begins with the first name. -/
theorem exists_head?_listed (areWords : ∀ name ∈ part.names, IsPackageWord name)
    (named : part.names ≠ []) :
    ∃ c, part.listed = ' ' :: part.listed.tail ∧ part.listed.tail.head? = some c ∧
      isPackageChar c = true := by
  obtain ⟨name, rest, names⟩ := List.exists_cons_of_ne_nil named
  have isWord := areWords name (names ▸ List.mem_cons_self)
  obtain ⟨c, letters, spelled⟩ := List.exists_cons_of_ne_nil isWord.nonempty
  -- Behind the first space stands the first letter of the first name.
  have whole : part.listed = ' ' :: c :: (letters ++ rest.flatMap fun name => ' ' :: name.toList) := by
    rw [listed, names, List.flatMap_cons, spelled]
    rfl
  rw [whole]
  exact ⟨c, rfl, rfl, isWord.members c (spelled ▸ List.mem_cons_self)⟩

/-- A line of names ends with the last name. -/
theorem exists_getLast?_listed (areWords : ∀ name ∈ part.names, IsPackageWord name)
    (named : part.names ≠ []) :
    ∃ c, part.listed.getLast? = some c ∧ isPackageChar c = true := by
  obtain ⟨before, final, names⟩ := (List.eq_nil_or_concat part.names).resolve_left named
  rw [List.concat_eq_append] at names
  have isWord := areWords final (names ▸ List.mem_concat_self)
  -- The last name is written last, behind a space.
  have whole : part.listed =
      (before.flatMap fun name => ' ' :: name.toList) ++ [' '] ++ final.toList := by
    rw [listed, names, List.flatMap_append, List.flatMap_singleton]
    simp
  refine ⟨final.toList.getLast isWord.nonempty, ?_, isWord.members _ (List.getLast_mem _)⟩
  rw [whole, List.getLast?_append_of_ne_nil _ isWord.nonempty,
    List.getLast?_eq_some_getLast isWord.nonempty]

end ListPart

/-- A character of a name is neither blank nor a semicolon. -/
theorem isBlank_and_ne_of_isPackageChar {c : Char} (member : isPackageChar c = true) :
    Text.isBlank c = false ∧ c ≠ ';' :=
  -- Both marks lie outside the class of these characters.
  ⟨isBlank_of_isPackageChar member, Text.ne_of_class member rfl⟩

/-- A statement says what stands on a line of names. -/
structure SaysPart (part : ListPart) (statement : Statement) : Prop where
  words : packageWords (listLine statement.raw).1 = part.names.map String.toList
  closes : (listLine statement.raw).2 = part.brackets
  clean : ∃ comment, TrimmedTo part.ending comment ∧ statement.clean = part.listed.tail ++ comment

/-- A line of names says what stands on it. -/
theorem exists_said_part {part : ListPart} (areWords : ∀ name ∈ part.names, IsPackageWord name)
    (named : part.names ≠ []) :
    ∃ statement, said (line part.text) = [statement] ∧ SaysPart part statement := by
  -- The names begin and end the stretch before the comment with characters of packages.
  obtain ⟨first, begins, head, firstMember⟩ := ListPart.exists_head?_listed areWords named
  obtain ⟨last, ends, lastMember⟩ := ListPart.exists_getLast?_listed areWords named
  have lastShown : ∀ c ∈ part.listed.tail.getLast?, Text.isBlank c = false ∧ c ≠ ';' := by
    have nonempty : part.listed.tail ≠ [] := List.ne_nil_of_mem (List.mem_of_mem_head? head)
    rw [begins, ← List.singleton_append, List.getLast?_append_of_ne_nil _ nonempty] at ends
    rw [ends]
    rintro c ⟨⟩
    exact isBlank_and_ne_of_isPackageChar lastMember
  obtain ⟨comment, trimmed, found⟩ := exists_statement_append head firstMember lastShown part
  have indented : statement? part.text = statement? (part.listed.tail ++ part.ending) := by
    rw [ListPart.text, begins]
    exact statement?_indented 1 _
  refine ⟨_, by rw [said_line, indented, found]; rfl, ?_, ?_, comment, trimmed, rfl⟩
  all_goals
    -- The blank before the first name makes no difference to how the line is read.
    have read : packageWords (listLine (part.listed ++ Text.trimEnd part.ending)).1 = _ ∧
        (listLine (part.listed ++ Text.trimEnd part.ending)).2 = _ :=
      listLine_names_append areWords (isEnding_trimEnd part.isEnding)
    have free : ']' ∉ [' '] := by decide
    have blank := listLine_append free (part.listed.tail ++ Text.trimEnd part.ending)
    rw [begins, List.cons_append, ← List.singleton_append, blank] at read
  · rw [← read.1, List.singleton_append, packageWords, packageWords, words_cons_of_isBlank rfl]
  · exact read.2.trans (contains_trimEnd part.ending)

/-- A line without names says nothing, whatever its comment says. -/
theorem said_part_of_nameless {part : ListPart} (nameless : part.names = []) :
    said (line part.text) = [] := by
  have empty : part.listed = [] := by rw [ListPart.listed, nameless, List.flatMap_nil]
  -- Trimmed, such a line is empty or begins with the sign for a comment.
  have silent : isStatement (Text.trim part.ending) = false := by
    rcases part.isEnding with nothing | ⟨comment, something⟩
    · rw [nothing]
      rfl
    · have trimmed : Text.trim (' ' :: '#' :: comment) = '#' :: Text.trimEnd comment :=
        @Text.trimEnd_append ['#'] comment (by simp [Text.isBlank])
      rw [something, trimmed]
      rfl
  rw [said_line, ListPart.text, empty, List.nil_append, statement?, if_neg (by simp [silent])]
  rfl

/-- The line that opens a list says what stands on it behind the bracket. -/
theorem exists_said_opening {path : String} (isPath : IsPath path.toList) {part : ListPart}
    (areWords : ∀ name ∈ part.names, IsPackageWord name) :
    ∃ statement, said (line (PackageListing.beginning path ++ part.text)) = [statement] ∧
      packageWords (listOpening statement.raw).1 = part.names.map String.toList ∧
      (listOpening statement.raw).2 = part.brackets ∧
      ∃ comment, TrimmedTo part.ending comment ∧
        statement.clean = PackageListing.beginning path ++ part.listed ++ comment := by
  obtain ⟨c, begins, onPath⟩ := isPath.begins
  have head : (PackageListing.beginning path ++ part.listed).head? = some c := by
    obtain ⟨rest, spelled⟩ := List.head?_eq_some_iff.1 begins
    rw [PackageListing.beginning, spelled]
    rfl
  have member : isPackageChar c = true := by rw [isPackageChar, onPath, Bool.true_or]
  have last : ∀ c ∈ (PackageListing.beginning path ++ part.listed).getLast?,
      Text.isBlank c = false ∧ c ≠ ';' := by
    -- The text before the comment ends with the bracket or with the last name.
    by_cases named : part.names = []
    · have bracket : (PackageListing.beginning path ++ part.listed).getLast? = some '[' := by
        rw [ListPart.listed, named, List.flatMap_nil, List.append_nil, PackageListing.beginning]
        exact List.getLast?_append_of_ne_nil _ (by decide)
      rw [bracket]
      rintro c ⟨⟩
      decide
    · obtain ⟨final, ends, isLast⟩ := ListPart.exists_getLast?_listed areWords named
      have nonempty : part.listed ≠ [] := List.ne_nil_of_mem (List.mem_of_mem_getLast? ends)
      rw [List.getLast?_append_of_ne_nil _ nonempty, ends]
      rintro c ⟨⟩
      exact isBlank_and_ne_of_isPackageChar isLast
  obtain ⟨comment, trimmed, found⟩ := exists_statement_append head member last part
  have bracket : Text.splitFirst ['['] (PackageListing.beginning path ++
      (part.listed ++ Text.trimEnd part.ending)) =
        some (path.toList ++ " = with pkgs; ".toList, part.listed ++ Text.trimEnd part.ending) := by
    -- The bracket of the list is the first one on the line.
    have free : '[' ∉ path.toList ++ " = with pkgs; ".toList := by
      rw [List.mem_append, not_or]
      exact ⟨Text.not_mem_of_class isPath.onPath rfl, by decide⟩
    have shape : PackageListing.beginning path ++ (part.listed ++ Text.trimEnd part.ending) =
        (path.toList ++ " = with pkgs; ".toList) ++
          ('[' :: (part.listed ++ Text.trimEnd part.ending)) := by
      simp [PackageListing.beginning]
    have atHead : Text.splitFirst ['['] ('[' :: (part.listed ++ Text.trimEnd part.ending)) =
        some ([], part.listed ++ Text.trimEnd part.ending) :=
      Text.splitFirst_of_begins (by decide) rfl
    rw [shape, splitFirst_append_of_not_mem free, atHead]
    simp
  have read : packageWords (listLine (part.listed ++ Text.trimEnd part.ending)).1 = _ ∧
      (listLine (part.listed ++ Text.trimEnd part.ending)).2 = _ :=
    listLine_names_append areWords (isEnding_trimEnd part.isEnding)
  refine ⟨_, by rw [said_line, ListPart.text, ← List.append_assoc, found]; rfl, ?_, ?_, comment,
    trimmed, rfl⟩
  all_goals
    dsimp only
    rw [List.append_assoc, listOpening, bracket]
  · exact read.1
  · exact read.2.trans (contains_trimEnd part.ending)

/-- Without a bracket in a comment no line is lost. -/
theorem lostParts_of_not_any {parts : List ListPart} (none : parts.any (·.endsList) = false) :
    lostParts parts = [] := by
  induction parts with
  | nil => rfl
  | cons part rest ih =>
    -- No line ends the list, so every one of them is read.
    obtain ⟨here, later⟩ := Bool.or_eq_false_iff.1 none
    rw [lostParts, if_neg (by simp [here]), ih later]

/-- The lines that are lost are lines of the list. -/
theorem lostParts_subset (parts : List ListPart) : lostParts parts ⊆ parts := by
  induction parts with
  | nil => exact List.Subset.refl _
  | cons part rest ih =>
    rw [lostParts]
    -- Either nothing has ended the list yet, or the rest below is what is lost.
    split
    · exact List.subset_cons_self part rest
    · exact List.subset_cons_of_subset part ih

/-- Every name is read or stands on a line that is lost. -/
theorem names_keptParts_append (parts : List ListPart) :
    (keptParts parts).flatMap (·.names) ++ (lostParts parts).flatMap (·.names) =
      parts.flatMap (·.names) := by
  induction parts with
  | nil => rfl
  | cons part rest ih =>
    rw [keptParts, lostParts, List.flatMap_cons]
    -- The line that ends the list is read, and the ones below it are lost.
    split
    · simp
    · rw [List.flatMap_cons, List.append_assoc, ih]

namespace PackageListing

variable {listing : PackageListing}

/-- The lines that are lost are lines of the list. -/
theorem lost_subset (listing : PackageListing) : listing.lost ⊆ listing.parts := by
  -- What is lost is a last part of the list, or all of it.
  rw [lost]
  split
  · exact List.Subset.refl _
  · exact lostParts_subset _

/-- Without comments no line ends the list. -/
theorem any_endsList_bare (parts : List ListPart) :
    (parts.map (·.bare)).any (·.endsList) = false := by
  induction parts with
  | nil => rfl
  | cons part rest ih =>
    -- A line without its comment holds no bracket.
    have here : part.bare.endsList = false := by
      simp [ListPart.endsList, ListPart.brackets, ListPart.ending, ListPart.bare]
    rw [List.map_cons, List.any_cons, here, ih]
    rfl

/-- Without comments no line is lost. -/
theorem lost_bare (listing : PackageListing) : listing.bare.lost = [] := by
  -- Without comments no bracket ends the list early.
  rw [lost, if_neg (by simp [bare, ListPart.bare, ListPart.brackets, ListPart.ending])]
  exact lostParts_of_not_any (any_endsList_bare listing.parts)

/-- Without comments all names are read, also those on lines that are lost otherwise. -/
theorem kept_bare (listing : PackageListing) :
    listing.bare.kept = listing.kept ++ listing.lost.flatMap (·.names) := by
  have whole := names_keptParts_append listing.bare.parts
  -- No line is lost without comments, so all names are kept.
  have none : lostParts listing.bare.parts = [] :=
    lostParts_of_not_any (any_endsList_bare listing.parts)
  have names : listing.bare.parts.flatMap (·.names) = listing.parts.flatMap (·.names) := by
    simp [bare, ListPart.bare, List.flatMap_map]
  rw [none, List.flatMap_nil, List.append_nil, names] at whole
  rw [kept, if_neg (by simp [bare, ListPart.bare, ListPart.brackets, ListPart.ending]), whole, kept,
    lost]
  split
  · rfl
  · rw [List.append_assoc, names_keptParts_append]
    rfl

/-- A list fits also without its comments. -/
theorem Fits.bare (fits : listing.Fits) : listing.bare.Fits := by
  have uncommented {part : ListPart} (fits : part.Fits) : part.bare.Fits :=
    ⟨fits.words, @IsPlain.fits [] (by decide)⟩
  -- The words are the same, and an absent comment fits on any line.
  exact ⟨uncommented fits.opening, List.forall_mem_map.2 fun part among =>
    uncommented (fits.parts part among)⟩

end PackageListing

/-- What stands on a line of a list fits. -/
theorem ListPart.Fits.text {part : ListPart} (fits : part.Fits) : FitsLine part.text := by
  have plain : IsPlain part.listed :=
    ⟨not_mem_names fits.words rfl (by decide), not_mem_names fits.words rfl (by decide)⟩
  -- The words have no hash sign, so the first one begins the comment.
  exact FitsLine.append plain fits.ending

/-- The lines of a list fit. -/
theorem PackageListing.Fits.lines {listing : PackageListing} (fits : listing.Fits) {path : String}
    (plain : IsPlain (beginning path)) : AllFit (listing.lines path) := by
  -- The opening line, the lines of the list and the closing bracket all fit.
  rw [PackageListing.lines, allFit_block, partLines, allFit_flatMap]
  refine ⟨FitsLine.append plain fits.opening.text, fun part among => ?_, IsPlain.fits (by decide)⟩
  exact allFit_line.2 (fits.parts part among).text

/-- How a file is read in a list of packages, and where a bracket leads out of the list. -/
def ReadsList {α : Type} (renames : Renames) (step : α → Statement → α)
    (inside outside : List Package → α) : Prop :=
  -- A line adds its packages, and only a bracket leads out of the list.
  ∀ packages statement, step (inside packages) statement =
    (if (listLine statement.raw).2 then outside else inside)
      (collectPackages renames packages (listLine statement.raw).1)

section

variable {α : Type} {renames : Renames} {step : α → Statement → α}
  {inside outside : List Package → α}

/-- Lines are read up to the first one that ends the list; those below it are read outside. -/
theorem foldl_partLines (reads : ReadsList renames step inside outside) {parts : List ListPart}
    (areWords : ∀ part ∈ parts, ∀ name ∈ part.names, IsPackageWord name) (packages : List Package) :
    (said (partLines parts)).foldl step (inside packages) =
      (said (partLines (lostParts parts))).foldl step
        ((if parts.any (·.endsList) then outside else inside)
          (withNames renames packages ((keptParts parts).flatMap (·.names)))) := by
  -- Line by line; what has been read is in the packages.
  induction parts generalizing packages with
  | nil => rfl
  | cons part rest ih =>
    obtain ⟨here, later⟩ := List.forall_mem_cons.1 areWords
    have split : said (partLines (part :: rest)) = said (line part.text) ++ said (partLines rest) := by
      rw [partLines, List.flatMap_cons, said_append]
      rfl
    rw [split, keptParts, lostParts, List.any_cons]
    by_cases named : part.names = []
    · -- A line without names is passed over.
      have goesOn : part.endsList = false := by rw [ListPart.endsList, named]; rfl
      rw [said_part_of_nameless named, List.nil_append, ih later, goesOn, Bool.false_or,
        if_neg Bool.false_ne_true, if_neg Bool.false_ne_true, List.flatMap_cons, named,
        List.nil_append]
    · obtain ⟨statement, single, told⟩ := exists_said_part here named
      have present : part.names.isEmpty = false := by simpa using named
      have ends : part.endsList = part.brackets := by rw [ListPart.endsList, present]; rfl
      rw [single, List.singleton_append, List.foldl_cons, reads, collectPackages_eq told.words,
        told.closes, ends]
      cases part.brackets with
      | true => simp
      | false =>
        rw [if_neg Bool.false_ne_true, ih later, withNames_withNames]
        simp

/-- The statement that closes a list. -/
def closing : Statement :=
  ⟨"];".toList, "]".toList⟩

/--
A list is read up to the first bracket in a comment.

The lines below that one, and the closing bracket, are read outside of the list.
-/
theorem foldl_listing (reads : ReadsList renames step inside outside)
    (idle : ∀ packages, step (outside packages) closing = outside packages)
    {listing : PackageListing} (fits : listing.Fits) {path : String} (isPath : IsPath path.toList)
    (begins : ∀ packages statement comment, TrimmedTo listing.opening.ending comment →
      statement.clean = PackageListing.beginning path ++ listing.opening.listed ++ comment →
      step (outside packages) statement = (if (listOpening statement.raw).2 then outside else inside)
        (collectPackages renames packages (listOpening statement.raw).1))
    (packages : List Package) :
    (said (listing.lines path)).foldl step (outside packages) =
      (said (partLines listing.lost) ++ [closing]).foldl step
        (outside (withNames renames packages listing.kept)) := by
  obtain ⟨statement, single, words, closes, comment, trimmed, clean⟩ :=
    exists_said_opening isPath fits.opening.words
  have areWords := fun part among => (fits.parts part among).words
  have whole : said (listing.lines path) =
      statement :: (said (partLines listing.parts) ++ [closing]) := by
    rw [PackageListing.lines, block, said_append, said_append, said_indent, single]
    rfl
  have ends (packages : List Package) : step (inside packages) closing = outside packages := by
    rw [reads]
    rfl
  rw [whole, List.foldl_cons, begins packages statement comment trimmed clean,
    collectPackages_eq words, closes, List.foldl_append, List.foldl_append, PackageListing.lost,
    PackageListing.kept]
  cases listing.opening.brackets with
  | true => rfl
  | false =>
    rw [if_neg Bool.false_ne_true, if_neg Bool.false_ne_true, if_neg Bool.false_ne_true,
      foldl_partLines reads areWords, withNames_withNames]
    cases ended : listing.parts.any (·.endsList) with
    | true => rfl
    | false =>
      -- The list is still open, and is closed by the bracket on its own line.
      rw [lostParts_of_not_any ended]
      exact (ends _).trans (idle _).symm

end

/-- No equals sign stands before the first sign for a comment. -/
def AssignsNothing (clean : List Char) : Prop :=
  '=' ∉ clean.takeWhile (· != '#')

/-- An equals sign behind blanks stands before the first sign for a comment. -/
theorem equals_mem_takeWhile {front rest : List Char} (free : '#' ∉ front)
    (equals : ['='].isPrefixOf (Text.trimStart rest) = true) :
    '=' ∈ (front ++ rest).takeWhile (· != '#') := by
  have noHash : ∀ c ∈ front, (c != '#') = true := by
    intro c within
    rw [bne_iff_ne]
    rintro rfl
    exact free within
  have blanks : ∀ c ∈ rest.takeWhile Text.isBlank, (c != '#') = true := by
    intro c within
    rw [bne_iff_ne]
    exact Text.ne_of_class (List.mem_takeWhile_imp within) rfl
  -- What stands before the equals sign is free of signs for comments, the blanks as well.
  obtain ⟨more, shape⟩ := List.isPrefixOf_iff_prefix.1 equals
  rw [List.takeWhile_append_of_pos noHash, ← List.takeWhile_append_dropWhile (p := Text.isBlank) (l := rest),
    List.takeWhile_append_of_pos blanks]
  refine List.mem_append_right _ (List.mem_append_right _ ?_)
  change '=' ∈ (Text.trimStart rest).takeWhile _
  rw [← shape]
  exact List.mem_cons_self

/-- A line that assigns nothing assigns nothing to a path. -/
theorem assigned?_of_assignsNothing {path : String} {clean : List Char}
    (nothing : AssignsNothing clean) (free : '#' ∉ path.toList) : assigned? path clean = none := by
  cases told : assigned? path clean with
  | none => rfl
  | some value =>
    obtain ⟨rest, begins, given⟩ := Option.bind_eq_some_iff.1 told
    obtain ⟨after, equals, -⟩ := Option.bind_eq_some_iff.1 given
    have whole := List.append_eq_of_isPrefixOf?_eq_some begins
    -- A value would be assigned by an equals sign, which stands before the comment.
    have sign : ['='].isPrefixOf (Text.trimStart rest) = true :=
      List.isPrefixOf_iff_prefix.2 ⟨after, List.append_eq_of_isPrefixOf?_eq_some equals⟩
    exact absurd (whole ▸ equals_mem_takeWhile free sign) nothing

/-- A line that assigns nothing assigns nothing to a name. -/
theorem assigns?_of_assignsNothing {isNamed : Char → Bool} {value : String} {clean : List Char}
    (nothing : AssignsNothing clean) (free : isNamed '#' = false) :
    assigns? isNamed value clean = none := by
  cases told : assigns? isNamed value clean with
  | none => rfl
  | some name =>
    rw [assigns?] at told
    split at told
    · cases told
    · obtain ⟨after, equals, -⟩ := Option.bind_eq_some_iff.1 told
      have whole := List.takeWhile_append_dropWhile (p := isNamed) (l := clean)
      -- The name before the equals sign holds no sign for a comment.
      have noHash : '#' ∉ clean.takeWhile isNamed := fun within =>
        Text.ne_of_class (List.mem_takeWhile_imp within) free rfl
      have sign : ['='].isPrefixOf (Text.trimStart (clean.dropWhile isNamed)) = true :=
        List.isPrefixOf_iff_prefix.2 ⟨after, List.append_eq_of_isPrefixOf?_eq_some equals⟩
      exact absurd (whole ▸ equals_mem_takeWhile noHash sign) nothing

end NixKeeper.Files
