import NixKeeper.Proofs.Files.CommentedList
import NixKeeper.Proofs.Files.Soundness

/-!
Where comments in a list of packages make a difference.

They do where a bracket in a comment ends the list above a name that is not there yet. In the system file
they also do where a comment that is not passed over names a hardware module.
-/

namespace NixKeeper.Files

variable {renames : Renames} {placeholder : String}

/-- A word that lacks a character, and begins a text, begins what stands before the character. -/
theorem prefix_of_prefix_append_cons {word front rest : List Char} {c : Char} (free : c ∉ word)
    (begins : word <+: front ++ c :: rest) : word <+: front := by
  obtain ⟨more, whole⟩ := begins
  rcases List.append_eq_append_iff.1 whole with ⟨middle, longer, -⟩ | ⟨middle, shorter, ending⟩
  · exact ⟨middle, longer.symm⟩
  · cases middle with
    | nil => exact ⟨[], by rw [shorter, List.append_nil, List.append_nil]⟩
    | cons d middle =>
      -- Otherwise the word would reach over the character.
      obtain ⟨rfl, -⟩ := List.cons.inj ending
      exact absurd (shorter ▸ List.mem_append_right _ List.mem_cons_self) free

/-- Names assign nothing, whatever the comment behind them says. -/
theorem assignsNothing_listed {part : ListPart} {comment : List Char}
    (areWords : ∀ name ∈ part.names, IsPackageWord name) (isEnding : IsEnding comment) :
    AssignsNothing (part.listed.tail ++ comment) := by
  have noHash : ∀ c ∈ part.listed.tail, (c != '#') = true := by
    intro c within
    rw [bne_iff_ne]
    rintro rfl
    exact not_mem_names areWords rfl (by decide) (List.mem_of_mem_tail within)
  intro within
  rw [List.takeWhile_append_of_pos noHash, List.mem_append] at within
  rcases within with inNames | inComment
  · exact not_mem_names areWords rfl (by decide) (List.mem_of_mem_tail inNames)
  · -- The sign for the comment comes before everything in it.
    rcases isEnding with rfl | ⟨text, rfl⟩
    · exact absurd inComment List.not_mem_nil
    · have blank : (' ' :: '#' :: text).takeWhile (· != '#') = [' '] := rfl
      rw [blank, List.mem_singleton] at inComment
      cases inComment

/-- A word without blanks that begins a line of names begins the first of them. -/
theorem exists_prefix_of_listed {word comment : List Char} {part : ListPart} (free : ' ' ∉ word)
    (named : part.names ≠ []) (isEnding : IsEnding comment)
    (begins : word <+: part.listed.tail ++ comment) :
    ∃ name ∈ part.names, word <+: name.toList := by
  obtain ⟨name, rest, names⟩ := List.exists_cons_of_ne_nil named
  refine ⟨name, names ▸ List.mem_cons_self, ?_⟩
  have whole : part.listed.tail ++ comment =
      name.toList ++ (rest.flatMap (fun name => ' ' :: name.toList) ++ comment) := by
    rw [ListPart.listed, names, List.flatMap_cons, List.cons_append, List.tail_cons, List.append_assoc]
  rw [whole] at begins
  -- Behind the first name stands a blank, or nothing at all.
  cases rest with
  | cons other more => exact prefix_of_prefix_append_cons free begins
  | nil =>
    rcases isEnding with rfl | ⟨text, rfl⟩
    · simpa using begins
    · exact prefix_of_prefix_append_cons free begins

/-- A word without blanks does not reach over the blank before a name. -/
theorem infix_append_names {word : List Char} (free : ' ' ∉ word) (front : List Char)
    (names : List String) :
    word <:+: front ++ names.flatMap (fun name => ' ' :: name.toList) ↔
      word <:+: front ∨ word <:+: names.flatMap fun name => ' ' :: name.toList := by
  -- The first name is written behind a blank, which is where the two texts meet.
  cases names with
  | nil =>
    rw [List.flatMap_nil, List.append_nil, List.infix_nil]
    exact ⟨.inl, fun either => either.elim id fun empty => empty ▸ List.nil_infix⟩
  | cons name rest =>
    rw [List.flatMap_cons, List.cons_append, Text.infix_append_cons_iff free,
      Text.infix_cons_iff_of_not_mem free]

/-- A word without blanks that stands on a line of names stands in one of them. -/
theorem exists_infix_of_listed {word : List Char} {names : List String} (free : ' ' ∉ word)
    (nonempty : word ≠ []) (within : word <:+: names.flatMap fun name => ' ' :: name.toList) :
    ∃ name ∈ names, word <:+: name.toList := by
  induction names with
  | nil => exact absurd (List.infix_nil.1 within) nonempty
  | cons name rest ih =>
    rw [List.flatMap_cons, List.cons_append, Text.infix_cons_iff_of_not_mem free,
      infix_append_names free] at within
    -- The word stands in the first name or behind the blank after it.
    rcases within with here | later
    · exact ⟨name, List.mem_cons_self, here⟩
    · obtain ⟨other, among, inOther⟩ := ih later
      exact ⟨other, List.mem_cons_of_mem _ among, inOther⟩

namespace SystemFile

/-- The name of a hardware module goes on as far as characters of names do. -/
theorem hardwareAt?_eq (text : List Char) :
    hardwareAt? text = (hardwareWords.isPrefixOf? text).bind fun rest =>
      if (rest.takeWhile Text.isNameChar).isEmpty then none
      else some (String.ofList (rest.takeWhile Text.isNameChar)) :=
  -- The definition is unfolded to a form that shows when there is no name.
  rfl

/-- No hardware module is recognised where the words for one do not stand. -/
theorem hardwareAt?_eq_none {text : List Char} (absent : ¬ hardwareWords <+: text) :
    hardwareAt? text = none := by
  -- Without the words before it no name is looked for.
  rw [hardwareAt?_eq, Text.isPrefixOf?_eq_none_iff.2 absent, Option.bind_none]

/-- A hardware module is looked for behind a text without the words for one. -/
theorem hardwarePreset?_append_cons {front rest : List Char} {c : Char}
    (absent : ¬ hardwareWords <:+: front) (free : c ∉ hardwareWords) :
    hardwarePreset? (front ++ c :: rest) = hardwarePreset? (c :: rest) := by
  induction front with
  | nil => rfl
  | cons d front ih =>
    rw [List.infix_cons_iff, not_or] at absent
    -- The words for a module would have to begin before the character and not reach it.
    have here : ¬ hardwareWords <+: (d :: front) ++ c :: rest := fun begins =>
      absent.1 (prefix_of_prefix_append_cons free begins)
    rw [List.cons_append] at here ⊢
    rw [hardwarePreset?, Text.findFirst, hardwareAt?_eq_none here]
    exact ih absent.2

/-- The words for a hardware module are a path. -/
theorem onPath_hardwareWords : ∀ c ∈ hardwareWords, Text.isPathChar c = true :=
  -- The words are a closed text.
  List.all_eq_true.1 (by decide)

/-- Blanks and semicolons behind a text change nothing about the hardware module at its head. -/
theorem hardwareAt?_append_of_blank (text : List Char) {more : List Char}
    (others : ∀ c ∈ more, Text.isBlank c = true ∨ c = ';') :
    hardwareAt? (text ++ more) = hardwareAt? text := by
  cases more with
  | nil => rw [List.append_nil]
  | cons c more =>
    -- What follows is of no path, so it belongs neither to the words nor to the name of a module.
    have offPath : Text.isPathChar c = false := by
      by_contra onPath
      rw [Bool.not_eq_false] at onPath
      rcases others c List.mem_cons_self with blank | rfl
      · exact Bool.false_ne_true ((Text.isBlank_of_isPathChar onPath).symm.trans blank)
      · cases onPath
    have free : c ∉ hardwareWords := Text.not_mem_of_class onPath_hardwareWords offPath
    have unnamed : Text.isNameChar c = false := (Bool.or_eq_false_iff.1 offPath).1
    by_cases begins : hardwareWords <+: text
    · -- The name of the module ends where the text does, or before.
      obtain ⟨rest, whole⟩ := begins
      have found (rest : List Char) : hardwareWords.isPrefixOf? (hardwareWords ++ rest) = some rest :=
        List.isPrefixOf?_eq_some_iff_append_eq.2 rfl
      have name : (rest ++ c :: more).takeWhile Text.isNameChar = rest.takeWhile Text.isNameChar := by
        rw [List.takeWhile_append, List.takeWhile_cons_of_neg (by simp [unnamed]), List.append_nil]
        split
        · rename_i whole
          exact ((List.takeWhile_prefix _).eq_of_length whole).symm
        · rfl
      rw [← whole, List.append_assoc, hardwareAt?_eq, hardwareAt?_eq, found, found, Option.bind_some,
        Option.bind_some, name]
    · have longer : ¬ hardwareWords <+: text ++ c :: more := fun begun =>
        begins (prefix_of_prefix_append_cons free begun)
      rw [hardwareAt?_eq_none begins, hardwareAt?_eq_none longer]

/-- Blanks and semicolons behind a text change nothing about the hardware module that it names. -/
theorem hardwarePreset?_append_of_blank (text : List Char) {more : List Char}
    (others : ∀ c ∈ more, Text.isBlank c = true ∨ c = ';') :
    hardwarePreset? (text ++ more) = hardwarePreset? text := by
  induction text with
  | nil =>
    -- The words for a hardware module begin with a letter.
    refine hardwarePreset?_eq_none fun within => ?_
    have letter : 'i' ∈ more := within.subset (by decide)
    exact absurd (others 'i' letter) (by decide)
  | cons c rest ih =>
    have here := hardwareAt?_append_of_blank (c :: rest) others
    rw [List.cons_append] at here ⊢
    rw [hardwarePreset?, Text.findFirst, here]
    change _ = (hardwareAt? (c :: rest)).orElse fun _ => hardwarePreset? rest
    rw [← ih]
    rfl

/-- The hardware module that a line names behind its names is that in its comment. -/
theorem hardwarePreset?_append_comment {front ending comment : List Char}
    (absent : ¬ hardwareWords <:+: front) (trimmed : TrimmedTo ending comment) :
    hardwarePreset? (front ++ comment) = hardwarePreset? ending := by
  obtain ⟨isEnding, more, rfl, others⟩ := trimmed
  rw [hardwarePreset?_append_of_blank comment others]
  -- The search passes the names, and goes on in the comment if there is one.
  rcases isEnding with rfl | ⟨text, rfl⟩
  · rw [List.append_nil, hardwarePreset?_eq_none absent]
    rfl
  · exact hardwarePreset?_append_cons absent (by decide)

/-- A line that assigns nothing may still name a hardware module, or open a list of packages. -/
theorem classify_of_assignsNothing {clean : List Char} (nothing : AssignsNothing clean)
    (unlisted : ¬ "environment.systemPackages".toList <+: clean) :
    classify clean = ((hardwarePreset? clean).map .hardwarePreset).getD .nothing := by
  have noValue {path : String} (free : '#' ∉ path.toList) : assigned? path clean = none :=
    assigned?_of_assignsNothing nothing free
  have noText {path : String} (free : '#' ∉ path.toList) : assignedText? path clean = none := by
    rw [assignedText?, noValue free]
    rfl
  have noHostname : assignedText? "networking.hostName" clean = none := noText (by decide)
  have noTimezone : assignedText? "time.timeZone" clean = none := noText (by decide)
  have noLocale : assignedText? "i18n.defaultLocale" clean = none := noText (by decide)
  have noFeatures : assigned? "nix.settings.experimental-features" clean = none :=
    noValue (by decide)
  have noList : "environment.systemPackages".toList.isPrefixOf clean = false := by
    rw [Bool.eq_false_iff]
    exact fun begins => unlisted (List.isPrefixOf_iff_prefix.1 begins)
  have noUser : userStart? clean = none := by
    rw [userStart?, Option.bind_eq_bind, Option.bind_eq_none_iff]
    intro rest begins
    -- Behind the path of a user there is no equals sign before a comment either.
    have whole := List.append_eq_of_isPrefixOf?_eq_some begins
    have nothingBehind : AssignsNothing rest := by
      intro within
      have plain : ∀ c ∈ "users.users.".toList, (c != '#') = true :=
        List.all_eq_true.1 (by decide)
      rw [AssignsNothing, ← whole, List.takeWhile_append_of_pos plain] at nothing
      exact nothing (List.mem_append_right _ within)
    rw [assigns?_of_assignsNothing nothingBehind rfl]
    rfl
  have noService : serviceStart? clean = none := by
    rw [serviceStart?, assigns?_of_assignsNothing nothing rfl]
    rfl
  have noLayout : keyboardLayout? clean = none := by
    rw [keyboardLayout?, noText (by decide), noText (by decide)]
    rfl
  have noSwap : swapMeaning? clean = none := by
    rw [swapMeaning?, noValue (by decide)]
    rfl
  have noSwitch : assigns? Text.isPathChar "true" clean = none :=
    assigns?_of_assignsNothing nothing rfl
  rw [classify]
  simp only [rules, List.findSome?_cons, List.findSome?_nil, noHostname, noTimezone, noLocale,
    noLayout, noFeatures, noSwap, noUser, noService, noList, noSwitch, Option.map_none,
    Option.bind_none, Bool.false_eq_true, if_false]
  cases hardwarePreset? clean <;> rfl

/-- The path of the list of packages for all users. -/
def packagesPath : String :=
  "environment.systemPackages"

/-- The line that opens the list does so unless it names a hardware module. -/
theorem classify_beginning (rest : List Char) :
    classify (PackageListing.beginning packagesPath ++ rest) =
      ((hardwarePreset? (PackageListing.beginning packagesPath ++ rest)).map .hardwarePreset).getD
        .packagesStart := by
  have shape : PackageListing.beginning packagesPath =
      "environment.systemPackages = with pkgs; [".toList := by decide
  rw [shape]
  generalize whole : "environment.systemPackages = with pkgs; [".toList ++ rest = clean
  -- The paths of the other rules begin with other letters.
  have noValue {path : String} (other : path.toList.head?.any (· != 'e')) :
      assigned? path clean = none := by
    obtain ⟨c, isFirst, different⟩ := (Option.any_eq_true _ _).1 other
    rw [bne_iff_ne] at different
    obtain ⟨letters, spelled⟩ := List.head?_eq_some_iff.1 isFirst
    have apart : ¬ path.toList <+: clean := by
      rintro ⟨more, same⟩
      rw [spelled, ← whole] at same
      exact different (List.cons.inj same).1
    rw [assigned?, Text.isPrefixOf?_eq_none_iff.2 apart]
    rfl
  have noText {path : String} (other : path.toList.head?.any (· != 'e')) :
      assignedText? path clean = none := by
    rw [assignedText?, noValue other]
    rfl
  have noHostname : assignedText? "networking.hostName" clean = none := noText (by decide)
  have noTimezone : assignedText? "time.timeZone" clean = none := noText (by decide)
  have noLocale : assignedText? "i18n.defaultLocale" clean = none := noText (by decide)
  have noLayout : keyboardLayout? clean = none := by
    rw [keyboardLayout?, noText (by decide), noText (by decide)]
    rfl
  have noFeatures : assigned? "nix.settings.experimental-features" clean = none :=
    noValue (by decide)
  have noSwap : swapMeaning? clean = none := by
    rw [swapMeaning?, noValue (by decide)]
    rfl
  have noUser : userStart? clean = none := whole ▸ rfl
  have noService : serviceStart? clean = none := whole ▸ rfl
  have isList : "environment.systemPackages".toList.isPrefixOf clean = true := whole ▸ rfl
  rw [classify]
  simp only [rules, List.findSome?_cons, noHostname, noTimezone, noLocale, noLayout,
    noFeatures, noSwap, noUser, noService, isList, Option.map_none, Option.bind_none,
    if_true]
  cases hardwarePreset? clean <;> rfl

variable {now : Progress} {preset : Option String} {packages : List Package}

/-- A reading outside of lists, with a hardware module and packages. -/
def outsideList (now : Progress) (preset : Option String) (packages : List Package) : Progress :=
  -- A comment may also have been read as a preset.
  { withSystem now fun system => { system with packages, hardwarePreset := preset } with
    context := .top }

/-- A reading in the list of packages, with a hardware module and packages. -/
def insideList (now : Progress) (preset : Option String) (packages : List Package) : Progress :=
  { outsideList now preset packages with context := .packages }

/-- It makes no difference to a part of a list whether the list is open already. -/
theorem readPackages_eq (part : List Char × Bool) :
    readPackages renames (insideList now preset packages) part =
        (if part.2 then outsideList else insideList) now preset
          (collectPackages renames packages part.1) ∧
      readPackages renames (outsideList now preset packages) part =
        (if part.2 then outsideList else insideList) now preset
          (collectPackages renames packages part.1) := by
  -- A part that closes the list leads out of it, whether the list was open or is opened here.
  unfold readPackages
  cases part.2 <;> exact ⟨rfl, rfl⟩

/-- The system file is read in a list until a bracket leads out of it. -/
theorem readsList (now : Progress) (preset : Option String) :
    ReadsList renames (readStatement renames placeholder) (insideList now preset)
      (outsideList now preset) := by
  intro packages statement
  -- Inside the list a line is read as packages, and only its bracket matters for what comes next.
  rw [readStatement]
  refine readPackages_eq (listLine statement.raw) |>.1.trans ?_
  split <;> rfl

/-- The bracket that closes a list says nothing outside of one. -/
theorem readStatement_closing (now : Progress) (preset : Option String) (packages : List Package) :
    readStatement renames placeholder (outsideList now preset packages) closing =
      outsideList now preset packages := by
  -- The bracket alone means nothing once the list is closed.
  have meaning : classify closing.clean = .nothing := by decide
  rw [readStatement]
  change readTop renames placeholder _ _ = _
  rw [readTop, meaning]

/-- The hardware module that the comment behind names is taken to name. -/
def commentModule? (part : ListPart) : Option String :=
  if part.names.isEmpty then none else hardwarePreset? part.ending

/-- Words that name a package also where they are read outside of a list. -/
structure IsQuiet (path : String) (name : String) : Prop where
  noHardware : ¬ hardwareWords <:+: name.toList
  unlisted : ¬ path.toList <+: name.toList

/-- A line of names outside of lists tells at most the hardware module in its comment. -/
theorem readStatement_lost {part : ListPart} {statement : Statement}
    (areWords : ∀ name ∈ part.names, IsPackageWord name) (named : part.names ≠ [])
    (quiet : ∀ name ∈ part.names, IsQuiet packagesPath name) (told : SaysPart part statement) :
    readStatement renames placeholder (outsideList now preset packages) statement =
      outsideList now ((commentModule? part).or preset) packages := by
  obtain ⟨comment, trimmed, clean⟩ := told.clean
  -- The names say nothing themselves, so what the line tells is what its comment tells.
  have absent : ¬ hardwareWords <:+: part.listed.tail := by
    intro within
    obtain ⟨name, among, inName⟩ := exists_infix_of_listed (by decide) (by decide)
      (within.trans (List.tail_suffix _).isInfix)
    exact (quiet name among).noHardware inName
  have unlisted : ¬ packagesPath.toList <+: statement.clean := by
    rw [clean]
    intro begins
    obtain ⟨name, among, front⟩ := exists_prefix_of_listed (by decide) named trimmed.isEnding begins
    exact (quiet name among).unlisted front
  have meaning := classify_of_assignsNothing
    (clean ▸ assignsNothing_listed areWords trimmed.isEnding) unlisted
  have present : part.names.isEmpty = false := by simpa using named
  rw [clean, hardwarePreset?_append_comment absent trimmed, ← clean] at meaning
  rw [readStatement]
  change readTop renames placeholder _ _ = _
  rw [readTop, meaning, commentModule?, present, if_neg Bool.false_ne_true]
  cases hardwarePreset? part.ending <;> rfl

/-- Lines of names outside of lists tell at most a hardware module, of which the last one counts. -/
theorem foldl_lost {parts : List ListPart}
    (areWords : ∀ part ∈ parts, ∀ name ∈ part.names, IsPackageWord name)
    (quiet : ∀ part ∈ parts, ∀ name ∈ part.names, IsQuiet packagesPath name) :
    (said (partLines parts)).foldl (readStatement renames placeholder)
        (outsideList now preset packages) =
      outsideList now ((parts.filterMap commentModule?).getLast?.or preset) packages := by
  induction parts generalizing preset with
  | nil => rfl
  | cons part rest ih =>
    obtain ⟨words, laterWords⟩ := List.forall_mem_cons.1 areWords
    obtain ⟨quietHere, quietLater⟩ := List.forall_mem_cons.1 quiet
    have split : said (partLines (part :: rest)) = said (line part.text) ++ said (partLines rest) := by
      rw [partLines, List.flatMap_cons, said_append]
      rfl
    rw [split, List.foldl_append, List.filterMap_cons]
    by_cases named : part.names = []
    · -- A line without names is no statement, and its module does not count.
      have silent : commentModule? part = none := by rw [commentModule?, named]; rfl
      rw [said_part_of_nameless named, silent]
      exact ih laterWords quietLater
    · obtain ⟨statement, single, told⟩ := exists_said_part words named
      rw [single, List.foldl_cons, List.foldl_nil, readStatement_lost words named quietHere told,
        ih laterWords quietLater]
      -- A later module takes the place of an earlier one.
      cases commentModule? part with
      | none => rfl
      | some module => simp [List.getLast?_cons]

/-- The line that opens the list does so unless its comment names a hardware module. -/
theorem classify_opening {part : ListPart} {comment : List Char}
    (quiet : ∀ name ∈ part.names, ¬ hardwareWords <:+: name.toList)
    (trimmed : TrimmedTo part.ending comment) :
    classify (PackageListing.beginning packagesPath ++ part.listed ++ comment) =
      ((hardwarePreset? part.ending).map .hardwarePreset).getD .packagesStart := by
  -- The words for a module stand neither in the path nor in the names.
  have absent : ¬ hardwareWords <:+: PackageListing.beginning packagesPath ++ part.listed := by
    intro within
    rcases (infix_append_names (by decide) _ _).1 within with inPath | inNames
    · exact absurd inPath (by decide)
    · obtain ⟨name, among, inName⟩ := exists_infix_of_listed (by decide) (by decide) inNames
      exact quiet name among inName
  rw [List.append_assoc, classify_beginning, ← List.append_assoc,
    hardwarePreset?_append_comment absent trimmed]

/-- What the packages of a list and the lines below it say together. -/
theorem foldl_packagesList {listing : PackageListing} (fits : listing.Fits)
    (openingQuiet : ∀ name ∈ listing.opening.names, ¬ hardwareWords <:+: name.toList)
    (noModule : hardwarePreset? listing.opening.ending = none)
    (quiet : ∀ part ∈ listing.lost, ∀ name ∈ part.names, IsQuiet packagesPath name) :
    (said (listing.lines packagesPath)).foldl (readStatement renames placeholder)
        (outsideList now preset packages) =
      outsideList now ((listing.lost.filterMap commentModule?).getLast?.or preset)
        (withNames renames packages listing.kept) := by
  have areWords : ∀ part ∈ listing.lost, ∀ name ∈ part.names, IsPackageWord name :=
    fun part among => (fits.parts part (listing.lost_subset among)).words
  refine (foldl_listing (readsList now preset) (readStatement_closing now preset) fits (by decide)
    ?_ packages).trans ?_
  · -- The line that opens the list begins it, since its comment names no module.
    intro packages statement comment trimmed clean
    have meaning := classify_opening openingQuiet trimmed
    rw [noModule, ← clean] at meaning
    rw [readStatement]
    change readTop renames placeholder _ _ = _
    rw [readTop, meaning]
    refine (readPackages_eq (listOpening statement.raw)).2.trans ?_
    split <;> rfl
  · rw [List.foldl_append, foldl_lost areWords quiet, List.foldl_cons, List.foldl_nil,
      readStatement_closing]

/-- Once a hardware module is known, one is known to the end. -/
theorem isSome_hardwarePreset_foldl (found : List Statement)
    (known : now.model.system.hardwarePreset.isSome) :
    (found.foldl (readStatement renames placeholder) now).model.system.hardwarePreset.isSome := by
  refine @model_foldl_of_change renames placeholder
    (fun model => model.system.hardwarePreset.isSome = true) found ?_ now known
  rintro statement - now ⟨model, context, seen⟩ change known
  -- Only a statement of settings changes the module, and only to another one.
  cases change with
  | settings system packages services hardware preset =>
    rcases preset with same | ⟨name, -, other⟩
    · exact same ▸ known
    · exact other ▸ rfl
  | packages | user | userLine | service | serviceSwitch | serviceLine => exact known

/-- A comment on the line that opens the list is taken for a hardware module. -/
theorem isSome_hardwarePreset_of_opening {listing : PackageListing} (fits : listing.Fits)
    (openingQuiet : ∀ name ∈ listing.opening.names, ¬ hardwareWords <:+: name.toList) {name : String}
    (isModule : hardwarePreset? listing.opening.ending = some name) :
    ((said (listing.lines packagesPath)).foldl (readStatement renames placeholder)
      (outsideList now preset packages)).model.system.hardwarePreset.isSome := by
  obtain ⟨statement, single, -, -, comment, trimmed, clean⟩ :=
    @exists_said_opening packagesPath (by decide) _ fits.opening.words
  have meaning := classify_opening openingQuiet trimmed
  rw [isModule, ← clean] at meaning
  rw [PackageListing.lines, block, said_append, said_append, single, List.append_assoc,
    List.singleton_append, List.foldl_cons]
  -- The first line is not taken for the opening of a list at all.
  refine isSome_hardwarePreset_foldl _ ?_
  rw [readStatement]
  change (readTop renames placeholder _ _).model.system.hardwarePreset.isSome = true
  rw [readTop, meaning]
  rfl

end SystemFile

/-- Lines of a file among which a list of packages stands in the managed region. -/
structure ListSite where
  before : List Line
  /-- The lines of the region above the list. -/
  ahead : List Line
  /-- The lines of the region below the list. -/
  behind : List Line
  after : List Line
  /-- The depth of the marker lines. -/
  depth : Nat

/-- The text of the file with the lines of a list. -/
def ListSite.text (site : ListSite) (list : List Line) : List Char :=
  render (site.before ++ regionAt site.depth (site.ahead ++ list ++ site.behind) ++ site.after)

/-- No line around the list can be taken for a marker. -/
structure ListSite.Fits (site : ListSite) : Prop where
  before : ∀ marker ∈ [Managed.beginMarker, Managed.endMarker], ¬ marker <:+: render site.before
  ahead : AllFit site.ahead
  behind : AllFit site.behind

/-- The statements of the file are those around the list and those of the list. -/
theorem ListSite.Fits.statements_text {site : ListSite} (fits : site.Fits) {list : List Line}
    (fit : AllFit list) :
    statements (site.text list) = said site.ahead ++ said list ++ said site.behind := by
  have all : AllFit (site.ahead ++ list ++ site.behind) := by
    simp [fits.ahead, fits.behind, fit]
  -- The three parts of the region are read one after another.
  rw [ListSite.text, statements_render site.after site.depth fits.before all, said_append, said_append]

/-- The names that are known after others have been added are those before and the added ones. -/
theorem mem_map_name_withNames {packages : List Package} {names : List String} {name : String} :
    name ∈ (withNames renames packages names).map (·.name) ↔
      name ∈ packages.map (·.name) ∨ name ∈ names.map renames.package := by
  induction names generalizing packages with
  | nil => simp [withNames]
  | cons first rest ih =>
    change name ∈ (withNames renames _ rest).map (·.name) ↔ _
    rw [ih, map_name_addPackage, List.map_cons, List.mem_cons, ← or_assoc]
    refine or_congr_left ?_
    -- A name that is known adds nothing, and any other one is appended.
    by_cases known : renames.package first ∈ packages.map (·.name)
    · rw [withName_of_mem known]
      exact ⟨.inl, fun either => either.elim id fun same => same ▸ known⟩
    · rw [withName_of_not_mem known, List.mem_append, List.mem_singleton]

/-- Names that are known already add nothing. -/
theorem withNames_of_known {packages : List Package} {names : List String}
    (known : ∀ name ∈ names, renames.package name ∈ packages.map (·.name)) :
    withNames renames packages names = packages := by
  induction names with
  | nil => rfl
  | cons name rest ih =>
    obtain ⟨here, later⟩ := List.forall_mem_cons.1 known
    -- The first name adds nothing, so the others meet the same packages.
    change withNames renames (addPackage packages ⟨renames.package name, "Imported"⟩).2 rest = _
    rw [addPackage_of_known here]
    exact ih later

namespace PackageListing

/-- Every package that is named on a lost line is read from a line above it. -/
def LosesNothing (renames : Renames) (listing : PackageListing) : Prop :=
  -- A name that is lost may come under another one in the lines that are kept.
  ∀ part ∈ listing.lost, ∀ name ∈ part.names,
    renames.package name ∈ listing.kept.map renames.package

variable {listing : PackageListing}

/-- Where nothing is lost, the list without comments says the same. -/
theorem LosesNothing.withNames_bare (complete : listing.LosesNothing renames)
    (packages : List Package) :
    withNames renames packages listing.bare.kept = withNames renames packages listing.kept := by
  rw [kept_bare, ← withNames_withNames]
  -- The names that the comments would lose are known from the lines above.
  refine withNames_of_known fun name among => mem_map_name_withNames.2 (.inr ?_)
  obtain ⟨part, isLost, onPart⟩ := List.mem_flatMap.1 among
  exact complete part isLost name onPart

/-- Where the list without comments says the same to nobody's packages, nothing is lost. -/
theorem losesNothing_of_withNames_bare
    (same : withNames renames [] listing.bare.kept = withNames renames [] listing.kept) :
    listing.LosesNothing renames := by
  intro part isLost name onPart
  -- A lost name is read where no comment stands before it.
  have named : renames.package name ∈ (withNames renames [] listing.bare.kept).map (·.name) := by
    rw [mem_map_name_withNames, kept_bare, List.map_append, List.mem_append]
    exact .inr (.inr (List.mem_map_of_mem (List.mem_flatMap.2 ⟨part, isLost, onPart⟩)))
  rw [same, mem_map_name_withNames] at named
  exact named.resolve_left List.not_mem_nil

end PackageListing

/-- A site of which nothing is known but the list. -/
def ListSite.alone : ListSite :=
  ⟨[], [], [], [], 0⟩

/-- Nothing around the list can be taken for a marker. -/
theorem ListSite.fits_alone : ListSite.alone.Fits := by
  -- Nothing stands around the list, so no marker can.
  refine ⟨fun marker isMarker within => ?_, List.forall_mem_nil _, List.forall_mem_nil _⟩
  exact (ends_of_isMarker isMarker).2.2 (List.infix_nil.1 within)

namespace SystemFile

/-- Comments in a list make no difference, wherever the list stands in a system file. -/
def IgnoresComments (renames : Renames) (placeholder : String) (listing : PackageListing) : Prop :=
  ∀ (base : Model) (site : ListSite), site.Fits →
    -- The list stands where the reader is outside of blocks.
    ((said site.ahead).foldl (readStatement renames placeholder) ⟨base, .top, []⟩).context = .top →
    read renames placeholder (site.text (listing.lines packagesPath)) base =
      read renames placeholder (site.text (listing.bare.lines packagesPath)) base

/-- What the first line opens the list, and every comment below a lost line, must not name. -/
structure NamesNoModule (listing : PackageListing) : Prop where
  opening : hardwarePreset? listing.opening.ending = none
  lost : ∀ part ∈ listing.lost, commentModule? part = none

/-- A list whose lines are read as lines of names wherever they stand. -/
structure IsQuietList (listing : PackageListing) : Prop where
  opening : ∀ name ∈ listing.opening.names, ¬ hardwareWords <:+: name.toList
  lost : ∀ part ∈ listing.lost, ∀ name ∈ part.names, IsQuiet packagesPath name

/-- Without its comments a list is quiet, and names no hardware module. -/
theorem IsQuietList.bare {listing : PackageListing} (quiet : IsQuietList listing) :
    IsQuietList listing.bare ∧ NamesNoModule listing.bare := by
  have none : listing.bare.lost = [] := listing.lost_bare
  -- Nothing is lost, so nothing is left to be asked of what is lost.
  refine ⟨⟨quiet.opening, none ▸ List.forall_mem_nil _⟩, ⟨?_, none ▸ List.forall_mem_nil _⟩⟩
  rfl

/-- A model without packages and without a hardware module. -/
def unequipped : Model :=
  { Model.initial with system := { Model.initial.system with packages := [], hardwarePreset := none } }

/--
Comments in a list make no difference to the system file exactly if none that is read names a hardware
module, and no bracket in one ends the list above a package that has not been named.
-/
theorem ignoresComments_iff {listing : PackageListing} (fits : listing.Fits)
    (quiet : IsQuietList listing) :
    IgnoresComments renames placeholder listing ↔
      NamesNoModule listing ∧ listing.LosesNothing renames := by
  obtain ⟨bareQuiet, bareModule⟩ := quiet.bare
  have plain : IsPlain (PackageListing.beginning packagesPath) := by decide
  constructor
  · -- The list is compared where it stands alone, as there all that is read is its own.
    intro ignores
    have same := ignores unequipped .alone ListSite.fits_alone rfl
    rw [read, read, ListSite.fits_alone.statements_text (fits.lines plain),
      ListSite.fits_alone.statements_text (fits.bare.lines plain)] at same
    -- A list that stands alone is all that is said, to a model without packages and module.
    have alone (list : List Line) : said ListSite.alone.ahead ++ said list ++
        said ListSite.alone.behind = said list := by
      rw [ListSite.alone]
      exact List.append_nil _
    have begins : (⟨unequipped, .top, []⟩ : Progress) = outsideList ⟨unequipped, .top, []⟩ none [] := rfl
    rw [alone, alone, begins, foldl_packagesList fits.bare bareQuiet.opening bareModule.opening
      bareQuiet.lost, listing.lost_bare] at same
    cases opening : hardwarePreset? listing.opening.ending with
    | some name =>
      have isSome := @isSome_hardwarePreset_of_opening renames placeholder ⟨unequipped, .top, []⟩ none []
        _ fits quiet.opening _ opening
      rw [same] at isSome
      cases isSome
    | none =>
      rw [foldl_packagesList fits quiet.opening opening quiet.lost] at same
      have preset := congrArg (·.system.hardwarePreset) same
      have packages := congrArg (·.system.packages) same
      refine ⟨⟨opening, fun part among => ?_⟩,
        PackageListing.losesNothing_of_withNames_bare packages.symm⟩
      -- Anywhere else both lists are read from the same progress, and lead to the same one.
      have noPresets : listing.lost.filterMap commentModule? = [] := by
        simpa [outsideList, withSystem] using preset
      exact List.filterMap_eq_nil_iff.1 noPresets part among
  · rintro ⟨noModule, complete⟩ base site siteFits atTop
    have noPresets : listing.lost.filterMap commentModule? = [] :=
      List.filterMap_eq_nil_iff.2 noModule.lost
    have bareNone : listing.bare.lost = [] := listing.lost_bare
    rw [read, read, siteFits.statements_text (fits.lines plain),
      siteFits.statements_text (fits.bare.lines plain)]
    simp only [List.foldl_append]
    generalize (said site.ahead).foldl (readStatement renames placeholder) ⟨base, .top, []⟩ = now
      at atTop ⊢
    have begins : now = outsideList now now.model.system.hardwarePreset now.model.system.packages := by
      obtain ⟨model, context, seen⟩ := now
      dsimp only at atTop
      rw [atTop]
      rfl
    rw [begins, foldl_packagesList fits quiet.opening noModule.opening quiet.lost,
      foldl_packagesList fits.bare bareQuiet.opening bareModule.opening bareQuiet.lost, noPresets,
      bareNone, complete.withNames_bare]
    rfl

end SystemFile

namespace Home

variable {user : User} {packages : List Package}

/-- The path of the list of packages of a user. -/
def packagesPath : String :=
  "home.packages"

/-- A reading outside of lists. -/
def outsideList (user : User) (packages : List Package) : Progress :=
  ⟨{ user with packages }, .top⟩

/-- A reading in the list of packages. -/
def insideList (user : User) (packages : List Package) : Progress :=
  ⟨{ user with packages }, .packages⟩

/-- It makes no difference to a part of a list whether the list is open already. -/
theorem readPackages_eq (part : List Char × Bool) :
    readPackages renames (insideList user packages) part =
        (if part.2 then outsideList else insideList) user (collectPackages renames packages part.1) ∧
      readPackages renames (outsideList user packages) part =
        (if part.2 then outsideList else insideList) user
          (collectPackages renames packages part.1) := by
  -- A part that closes the list leads out of it, whether the list was open or is opened here.
  unfold readPackages
  cases part.2 <;> exact ⟨rfl, rfl⟩

/-- The home is read in a list until a bracket leads out of it. -/
theorem readsList (user : User) :
    ReadsList renames (readStatement renames) (insideList user) (outsideList user) := by
  intro packages statement
  -- Inside the list a line is read as packages, and only its bracket matters for what comes next.
  rw [readStatement]
  refine (readPackages_eq (listLine statement.raw)).1.trans ?_
  split <;> rfl

/-- A line that assigns nothing says nothing unless it opens the list. -/
theorem readStatement_of_assignsNothing {statement : Statement}
    (nothing : AssignsNothing statement.clean)
    (unlisted : ¬ packagesPath.toList <+: statement.clean) :
    readStatement renames (outsideList user packages) statement = outsideList user packages := by
  -- No rule applies: none of the paths is assigned, and the list is not opened.
  have noList : "home.packages".toList.isPrefixOf statement.clean = false := by
    rw [Bool.eq_false_iff]
    exact fun begins => unlisted (List.isPrefixOf_iff_prefix.1 begins)
  have noGit : assigned? "programs.git" statement.clean = none :=
    assigned?_of_assignsNothing nothing (by decide)
  have noName : assigned? "programs.git.userName" statement.clean = none :=
    assigned?_of_assignsNothing nothing (by decide)
  have noEmail : assigned? "programs.git.userEmail" statement.clean = none :=
    assigned?_of_assignsNothing nothing (by decide)
  have noShell : enabledShell? statement.clean = none := by
    rw [enabledShell?, assigns?_of_assignsNothing nothing rfl]
    rfl
  rw [readStatement]
  change readTop renames _ _ = _
  simp only [readTop, noList, noGit, readIdentity?, assignedText?, noName, noEmail, noShell,
    Option.bind_none, Option.map_none, Bool.false_eq_true, reduceCtorEq, if_false]

/-- The bracket that closes a list says nothing outside of one. -/
theorem readStatement_closing (user : User) (packages : List Package) :
    readStatement renames (outsideList user packages) closing = outsideList user packages := by
  have nothing : AssignsNothing closing.clean := by
    unfold AssignsNothing
    decide
  -- A line that assigns nothing is passed over outside of blocks.
  exact readStatement_of_assignsNothing nothing (by decide)

/-- Lines of names say nothing outside of lists. -/
theorem foldl_lost {parts : List ListPart}
    (areWords : ∀ part ∈ parts, ∀ name ∈ part.names, IsPackageWord name)
    (unlisted : ∀ part ∈ parts, ∀ name ∈ part.names, ¬ packagesPath.toList <+: name.toList) :
    (said (partLines parts)).foldl (readStatement renames) (outsideList user packages) =
      outsideList user packages := by
  induction parts with
  | nil => rfl
  | cons part rest ih =>
    obtain ⟨words, laterWords⟩ := List.forall_mem_cons.1 areWords
    obtain ⟨here, later⟩ := List.forall_mem_cons.1 unlisted
    have split : said (partLines (part :: rest)) = said (line part.text) ++ said (partLines rest) := by
      rw [partLines, List.flatMap_cons, said_append]
      rfl
    rw [split, List.foldl_append]
    by_cases named : part.names = []
    · rw [said_part_of_nameless named]
      exact ih laterWords later
    · obtain ⟨statement, single, told⟩ := exists_said_part words named
      obtain ⟨comment, trimmed, clean⟩ := told.clean
      -- The names assign nothing, and none of them begins with the path of the list.
      have silent : readStatement renames (outsideList user packages) statement =
          outsideList user packages := by
        refine readStatement_of_assignsNothing ?_ ?_
        · exact clean ▸ assignsNothing_listed words trimmed.isEnding
        · rw [clean]
          intro begins
          obtain ⟨name, among, front⟩ :=
            exists_prefix_of_listed (by decide) named trimmed.isEnding begins
          exact here name among front
      rw [single, List.foldl_cons, List.foldl_nil, silent]
      exact ih laterWords later

/-- What the packages of a list and the lines below it say together. -/
theorem foldl_packagesList {listing : PackageListing} (fits : listing.Fits)
    (unlisted : ∀ part ∈ listing.lost, ∀ name ∈ part.names,
      ¬ packagesPath.toList <+: name.toList) :
    (said (listing.lines packagesPath)).foldl (readStatement renames) (outsideList user packages) =
      outsideList user (withNames renames packages listing.kept) := by
  have areWords : ∀ part ∈ listing.lost, ∀ name ∈ part.names, IsPackageWord name :=
    fun part among => (fits.parts part (listing.lost_subset among)).words
  refine (foldl_listing (readsList user) (readStatement_closing user) fits (by decide) ?_
    packages).trans ?_
  · -- The line that opens the list begins with the path of the list.
    intro packages statement comment trimmed clean
    have isList : "home.packages".toList.isPrefixOf statement.clean = true := by
      rw [List.isPrefixOf_iff_prefix, clean, List.append_assoc, PackageListing.beginning,
        List.append_assoc]
      exact List.prefix_append _ _
    rw [readStatement]
    change readTop renames _ _ = _
    simp only [readTop, isList, if_true]
    refine (readPackages_eq (listOpening statement.raw)).2.trans ?_
    split <;> rfl
  · rw [List.foldl_append, foldl_lost areWords unlisted, List.foldl_cons, List.foldl_nil,
      readStatement_closing]

/-- Comments in a list make no difference, wherever the list stands in a user's home. -/
def IgnoresComments (renames : Renames) (listing : PackageListing) : Prop :=
  ∀ (base : Model) (index : Nat) (site : ListSite), site.Fits →
    (∀ user ∈ base.users,
      ((said site.ahead).foldl (readStatement renames) ⟨user, .top⟩).context = .top) →
    read renames (site.text (listing.lines packagesPath)) base index =
      read renames (site.text (listing.bare.lines packagesPath)) base index

/-- A user without packages. -/
def ownless : User :=
  { User.named placeholderName with packages := [] }

/-- A model with a single user, who has no packages. -/
def singleUser : Model :=
  { Model.initial with users := [ownless] }

/--
Comments in a list make no difference to a home exactly if no bracket in one ends the list above a package
that has not been named.
-/
theorem ignoresComments_iff {listing : PackageListing} (fits : listing.Fits)
    (unlisted : ∀ part ∈ listing.lost, ∀ name ∈ part.names,
      ¬ packagesPath.toList <+: name.toList) :
    IgnoresComments renames listing ↔ listing.LosesNothing renames := by
  have plain : IsPlain (PackageListing.beginning packagesPath) := by decide
  have bareUnlisted : ∀ part ∈ listing.bare.lost, ∀ name ∈ part.names,
      ¬ packagesPath.toList <+: name.toList := listing.lost_bare ▸ List.forall_mem_nil _
  constructor
  · intro ignores
    -- The list is compared where it stands alone, in the home of a single user.
    have same := congrArg (·.users) (ignores singleUser 0 .alone ListSite.fits_alone fun _ _ => rfl)
    have users : readUser renames (ListSite.alone.text (listing.lines packagesPath)) ownless =
        readUser renames (ListSite.alone.text (listing.bare.lines packagesPath)) ownless :=
      (List.cons.inj same).1
    rw [readUser, readUser, ListSite.fits_alone.statements_text (fits.lines plain),
      ListSite.fits_alone.statements_text (fits.bare.lines plain)] at users
    -- A list that stands alone is all that is said.
    have alone (list : List Line) : said ListSite.alone.ahead ++ said list ++
        said ListSite.alone.behind = said list := by
      rw [ListSite.alone]
      exact List.append_nil _
    have begins : (⟨ownless, .top⟩ : Progress) = outsideList ownless [] := rfl
    rw [alone, alone, begins, foldl_packagesList fits unlisted,
      foldl_packagesList fits.bare bareUnlisted] at users
    exact PackageListing.losesNothing_of_withNames_bare (congrArg (·.packages) users).symm
  · intro complete base index site siteFits atTop
    -- User by user both lists are read from the same progress, and lead to the same one.
    have each : ∀ user ∈ base.users,
        readUser renames (site.text (listing.lines packagesPath)) user =
          readUser renames (site.text (listing.bare.lines packagesPath)) user := by
      intro user among
      have top := atTop user among
      rw [readUser, readUser, siteFits.statements_text (fits.lines plain),
        siteFits.statements_text (fits.bare.lines plain)]
      simp only [List.foldl_append]
      generalize (said site.ahead).foldl (readStatement renames) ⟨user, .top⟩ = now at top ⊢
      have begins : now = outsideList now.user now.user.packages := by
        obtain ⟨user, context⟩ := now
        dsimp only at top
        rw [top]
        rfl
      rw [begins, foldl_packagesList fits unlisted, foldl_packagesList fits.bare bareUnlisted,
        complete.withNames_bare]
    rw [read, read, modify_congr index each]

end Home

/--
Comments in a list of packages make no difference exactly if no bracket in one ends the list above a
package that has not been named, and, in the system file, none that is read names a hardware module.
-/
theorem comments_ignored_iff {listing : PackageListing} (fits : listing.Fits)
    (quiet : SystemFile.IsQuietList listing)
    (unlisted : ∀ part ∈ listing.lost, ∀ name ∈ part.names,
      ¬ Home.packagesPath.toList <+: name.toList) :
    (SystemFile.IgnoresComments renames placeholder listing ↔
        SystemFile.NamesNoModule listing ∧ listing.LosesNothing renames) ∧
      (Home.IgnoresComments renames listing ↔ listing.LosesNothing renames) :=
  -- The two kinds of files differ only in what a comment can be mistaken for.
  ⟨SystemFile.ignoresComments_iff fits quiet, Home.ignoresComments_iff fits unlisted⟩

/-- A list of which the last line alone has a closing bracket in its comment. -/
def annotatedListing : PackageListing :=
  -- Brackets that open stand in other comments, too.
  { opening := ⟨["fish"], some "a shell [for me".toList⟩
    parts := [⟨["jq", "gtk+"], some "tools".toList⟩, ⟨["fd"], some "[finder];".toList⟩] }

/-- The words of a list, and a comment on each line, fit if they do one by one. -/
theorem fits_of_forall {part : ListPart} (words : part.names.all fun name =>
      !name.toList.isEmpty && name.toList.all isPackageChar && name != "with")
    (ending : FitsLine part.ending) : part.Fits := by
  refine ⟨fun name among => ?_, ending⟩
  have good := List.all_eq_true.1 words name among
  simp only [Bool.and_eq_true, Bool.not_eq_true', List.isEmpty_eq_false_iff, bne_iff_ne] at good
  -- The check that can be decided says what the definition says.
  exact ⟨good.1.1, List.all_eq_true.1 good.1.2, good.2⟩

/-- Its comments make no difference. -/
theorem comments_ignored_annotatedListing :
    annotatedListing.Fits ∧ SystemFile.IsQuietList annotatedListing ∧
      (∀ part ∈ annotatedListing.lost, ∀ name ∈ part.names,
        ¬ Home.packagesPath.toList <+: name.toList) ∧
      SystemFile.IgnoresComments .builtin placeholderName annotatedListing ∧
      Home.IgnoresComments .builtin annotatedListing := by
  have ending (text : List Char) (noLineFeed : '\n' ∉ text)
      (noMarker : ¬ Managed.beginMarker <:+: text ∧ ¬ Managed.endMarker <:+: text) :
      FitsLine text := by
    refine ⟨noLineFeed, fun marker isMarker => ?_⟩
    simp only [List.mem_cons, List.not_mem_nil, or_false] at isMarker
    rcases isMarker with rfl | rfl
    · exact noMarker.1
    · exact noMarker.2
  -- No bracket stands in a comment, so nothing is lost and little is left to be checked.
  have fits : annotatedListing.Fits := by
    refine ⟨fits_of_forall (by decide) (ending _ (by decide) (by decide)), ?_⟩
    simp only [annotatedListing, List.forall_mem_cons]
    exact ⟨fits_of_forall (by decide) (ending _ (by decide) (by decide)),
      fits_of_forall (by decide) (ending _ (by decide) (by decide)), List.forall_mem_nil _⟩
  have nothingLost : annotatedListing.lost = [] := by decide
  have quiet : SystemFile.IsQuietList annotatedListing :=
    ⟨by decide, nothingLost ▸ List.forall_mem_nil _⟩
  have unlisted : ∀ part ∈ annotatedListing.lost, ∀ name ∈ part.names,
      ¬ Home.packagesPath.toList <+: name.toList := nothingLost ▸ List.forall_mem_nil _
  have noModule : SystemFile.NamesNoModule annotatedListing :=
    ⟨by decide, nothingLost ▸ List.forall_mem_nil _⟩
  have complete : annotatedListing.LosesNothing .builtin := by
    intro part isLost
    exact absurd (nothingLost ▸ isLost) List.not_mem_nil
  have same := @comments_ignored_iff .builtin placeholderName _ fits quiet unlisted
  exact ⟨fits, quiet, unlisted, same.1.2 ⟨noModule, complete⟩, same.2.2 complete⟩

/-- A list with a bracket in a comment above another name. -/
def bracketedListing : PackageListing :=
  -- The second name stands below the bracket.
  { opening := ⟨[], none⟩
    parts := [⟨["fish"], some "[shell]".toList⟩, ⟨["jq"], none⟩] }

/-- A bracket in a comment hides the packages below it, in both kinds of files. -/
theorem package_lost_below_bracket :
    (SystemFile.read .builtin placeholderName
          (ListSite.alone.text (bracketedListing.lines SystemFile.packagesPath))
          .initial).system.packages.map (·.name) = ["vim", "git", "wget", "fish"] ∧
      (SystemFile.read .builtin placeholderName
          (ListSite.alone.text (bracketedListing.bare.lines SystemFile.packagesPath))
          .initial).system.packages.map (·.name) = ["vim", "git", "wget", "fish", "jq"] ∧
      (Home.read .builtin (ListSite.alone.text (bracketedListing.lines Home.packagesPath))
          .initial 0).users.map (·.packages.map (·.name)) = [["fish"]] ∧
      (Home.read .builtin (ListSite.alone.text (bracketedListing.bare.lines Home.packagesPath))
          .initial 0).users.map (·.packages.map (·.name)) = [["fish", "jq"]] := by
  -- Both files are read with and without the comments.
  refine ⟨?_, ?_, ?_, ?_⟩ <;> decide

end NixKeeper.Files
