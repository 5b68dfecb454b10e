import Mathlib.Data.List.Infix
import NixKeeper.Proofs.Managed.UserBlock
import NixKeeper.Proofs.Text.Search

/-! Where the definitions of users in a text stand, and how those of its parts make up those of the whole. -/

namespace NixKeeper.Managed

/-- The usernames of all definitions in a text, as often as they are defined. -/
def mentions (text : List Char) : List String :=
  Text.findAll definition? text

/-- The names of a list, each at its first place. -/
def firsts (names : List String) : List String :=
  names.foldl (fun names name => if names.contains name then names else names ++ [name]) []

/-- The users that a text defines are those it mentions, each once. -/
theorem definedUsers_eq (text : List Char) : definedUsers text = firsts (mentions text) :=
  -- The search is the one for definitions, without what was found before.
  rfl

/-- The definition of a user up to its equals sign, with nothing before it. -/
structure IsDefinition (name : String) (text : List Char) : Prop where
  nonempty : name.toList ≠ []
  named : ∀ c ∈ name.toList, Text.isNameChar c = true
  shape : ∃ blanks, (∀ c ∈ blanks, Text.isBlank c = true) ∧
    text = userPath ++ name.toList ++ blanks ++ ['=']

/-- A definition begins with the path of users. -/
theorem IsDefinition.begins {name : String} {text : List Char} (defines : IsDefinition name text) :
    userPath <+: text := by
  obtain ⟨blanks, -, rfl⟩ := defines.shape
  -- The stretch is the path with a name and blanks behind it.
  rw [List.append_assoc, List.append_assoc]
  exact List.prefix_append _ _

/-- A character that a definition may have before its equals sign. -/
def isDefinitionChar (c : Char) : Bool :=
  Text.isPathChar c || Text.isBlank c

/-- A definition has an equals sign at its end, and nowhere else. -/
theorem IsDefinition.ends {name : String} {text : List Char} (defines : IsDefinition name text) :
    ∃ front, text = front ++ ['='] ∧ ∀ c ∈ front, isDefinitionChar c = true := by
  obtain ⟨blanks, areBlank, rfl⟩ := defines.shape
  -- Everything before the sign is the path, a name or blanks, and none of them holds one.
  refine ⟨_, rfl, fun c within => ?_⟩
  rw [List.mem_append, List.mem_append] at within
  rcases within with (inPath | inName) | inBlanks
  · have onPath : ∀ c ∈ userPath, isDefinitionChar c = true := List.all_eq_true.1 (by decide)
    exact onPath c inPath
  · simp [isDefinitionChar, Text.isPathChar, defines.named c inName]
  · simp [isDefinitionChar, areBlank c inBlanks]

/-- A definition is not empty. -/
theorem IsDefinition.ne_nil {name : String} {text : List Char} (defines : IsDefinition name text) :
    text ≠ [] := by
  obtain ⟨front, rfl, -⟩ := defines.ends
  -- It ends with an equals sign.
  simp

/-- Neither a blank nor an equals sign belongs to a name. -/
theorem takeWhile_isNameChar_gap {blanks : List Char} (areBlank : ∀ c ∈ blanks, Text.isBlank c = true)
    (rest : List Char) : (blanks ++ '=' :: rest).takeWhile Text.isNameChar = [] := by
  cases blanks with
  | nil => rfl
  | cons c blanks =>
    -- The first character behind the name is a blank, which no name holds.
    have unnamed : Text.isNameChar c = false := by
      by_contra isName
      rw [Bool.not_eq_false] at isName
      have blank := areBlank c List.mem_cons_self
      exact Bool.false_ne_true ((Text.isBlank_of_isNameChar isName).symm.trans blank)
    rw [List.cons_append, List.takeWhile_cons_of_neg (by simp [unnamed])]

/-- A name ends where a gap and an equals sign begin. -/
theorem name_eq_of_gap {name other blanks gap rest more : List Char}
    (named : ∀ c ∈ name, Text.isNameChar c = true) (otherNamed : ∀ c ∈ other, Text.isNameChar c = true)
    (areBlank : ∀ c ∈ blanks, Text.isBlank c = true) (areGap : ∀ c ∈ gap, Text.isBlank c = true)
    (same : name ++ (blanks ++ '=' :: rest) = other ++ (gap ++ '=' :: more)) : name = other := by
  -- Each name is all that its word characters take.
  have words := congrArg (List.takeWhile Text.isNameChar) same
  rwa [List.takeWhile_append_of_pos named, List.takeWhile_append_of_pos otherNamed,
    takeWhile_isNameChar_gap areBlank, takeWhile_isNameChar_gap areGap, List.append_nil,
    List.append_nil] at words

/-- A definition is recognised exactly where one stands. -/
theorem definition?_eq_some_iff {text after : List Char} {name : String} :
    definition? text = some (name, after) ↔
      ∃ stretch, IsDefinition name stretch ∧ text = stretch ++ after := by
  constructor
  · intro found
    simp only [definition?, Option.bind_eq_bind, Option.bind_eq_some_iff] at found
    obtain ⟨rest, atPath, found⟩ := found
    split at found
    · contradiction
    · rename_i isNamed
      simp only [Option.bind_eq_some_iff, Option.some.injEq, Prod.mk.injEq, pure] at found
      obtain ⟨_, atEquals, rfl, rfl⟩ := found
      obtain ⟨blanks, areBlank, behind⟩ := (afterBlanks?_eq_some_iff rfl).1 atEquals
      -- The pieces are put together again in the order in which they were cut off.
      refine ⟨_, ⟨?_, ?_, blanks, areBlank, rfl⟩, ?_⟩
      · simpa using isNamed
      · intro c within
        rw [String.toList_ofList] at within
        exact List.mem_takeWhile_imp within
      · rw [← List.append_eq_of_isPrefixOf?_eq_some atPath, String.toList_ofList]
        conv => lhs; rw [← List.takeWhile_append_dropWhile (p := Text.isNameChar) (l := rest), behind]
        simp
  · rintro ⟨_, ⟨nonempty, named, blanks, areBlank, rfl⟩, rfl⟩
    have whole : userPath ++ name.toList ++ blanks ++ ['='] ++ after =
        userPath ++ (name.toList ++ (blanks ++ '=' :: after)) := by simp
    have found : userPath.isPrefixOf? (userPath ++ (name.toList ++ (blanks ++ '=' :: after))) =
        some (name.toList ++ (blanks ++ '=' :: after)) :=
      List.isPrefixOf?_eq_some_iff_append_eq.2 rfl
    -- The name ends at the gap, so cutting the text gives back its pieces.
    have unnamed := takeWhile_isNameChar_gap areBlank after
    have word : (name.toList ++ (blanks ++ '=' :: after)).takeWhile Text.isNameChar = name.toList := by
      rw [List.takeWhile_append_of_pos named, unnamed, List.append_nil]
    have behind : (name.toList ++ (blanks ++ '=' :: after)).dropWhile Text.isNameChar =
        blanks ++ '=' :: after := by
      rw [List.dropWhile_append_of_pos named]
      conv => rhs; rw [← List.takeWhile_append_dropWhile (p := Text.isNameChar) (l := blanks ++ '=' :: after)]
      rw [unnamed, List.nil_append]
    have equals : afterBlanks? '=' (blanks ++ '=' :: after) = some after :=
      (afterBlanks?_eq_some_iff rfl).2 ⟨blanks, areBlank, rfl⟩
    rw [whole, definition?, found]
    simp only [Option.bind_eq_bind, Option.bind_some, word, behind, equals]
    simp [nonempty]

/-- A definition at the head of a text is mentioned first. -/
theorem mentions_definition_append {name : String} {stretch : List Char}
    (defines : IsDefinition name stretch) (rest : List Char) :
    mentions (stretch ++ rest) = name :: mentions rest :=
  -- The search meets the definition at once and goes on behind it.
  Text.findAll_append_of_some defines.ne_nil (definition?_eq_some_iff.2 ⟨stretch, defines, rfl⟩)

/-- Every user that a text mentions has a name of letters, digits, underscores and hyphens. -/
theorem isNameChar_of_mem_mentions {name : String} {text : List Char} (among : name ∈ mentions text) :
    ∀ c ∈ name.toList, Text.isNameChar c = true := by
  obtain ⟨rest, after, found⟩ := Text.exists_of_mem_findAllFrom among
  -- What is collected was found as the name of a definition.
  obtain ⟨stretch, defines, -⟩ := definition?_eq_some_iff.1 found
  exact defines.named

/-- The names of a list are those that have a first place in it. -/
theorem mem_firsts {names : List String} {name : String} : name ∈ firsts names ↔ name ∈ names := by
  -- The fold is followed for every list of names known before it.
  have entered (known : List String) :
      name ∈ names.foldl (fun names name => if names.contains name then names else names ++ [name])
        known ↔ name ∈ known ∨ name ∈ names := by
    induction names generalizing known with
    | nil => simp
    | cons first rest ih =>
      rw [List.foldl_cons, ih, List.mem_cons]
      split
      · rename_i isKnown
        -- A name known already is entered by nothing, and stays known.
        rw [List.contains_iff_mem] at isKnown
        constructor
        · exact Or.imp_right .inr
        · rintro (before | rfl | later)
          · exact .inl before
          · exact .inl isKnown
          · exact .inr later
      · rw [List.mem_append, List.mem_singleton, or_assoc]
  rw [firsts, entered, or_iff_right List.not_mem_nil]

/-- No definition stands across the seam of two texts. -/
def AreApart (first second : List Char) : Prop :=
  -- Both sides have a part in the definition, so neither part is empty.
  ∀ name front back, front <:+ first → front ≠ [] → back <+: second → back ≠ [] →
    ¬ IsDefinition name (front ++ back)

/-- Texts stay apart if the first one begins later. -/
theorem AreApart.of_suffix {first second ending : List Char} (apart : AreApart first second)
    (isEnding : ending <:+ first) : AreApart ending second :=
  -- An ending of the ending is an ending.
  fun name front back atEnd => apart name front back (atEnd.trans isEnding)

/-- Nothing is defined across the seam of texts that are apart. -/
theorem mentions_append {first second : List Char} (apart : AreApart first second) :
    mentions (first ++ second) = mentions first ++ mentions second := by
  -- Every step leaves a shorter text, by one character or by a whole definition.
  induction size : first.length using Nat.strongRecOn generalizing first with
  | ind size ih =>
    subst size
    cases first with
    | nil => rfl
    | cons c rest =>
      cases found : definition? (c :: rest) with
      | some pair =>
        obtain ⟨name, after⟩ := pair
        obtain ⟨stretch, defines, whole⟩ := definition?_eq_some_iff.1 found
        -- A definition in the first text is cut off on both sides of the equation.
        have positive := List.length_pos_iff.2 defines.ne_nil
        have shorter : after.length < (c :: rest).length := by
          rw [whole, List.length_append]
          omega
        have isEnding : after <:+ c :: rest := ⟨stretch, whole.symm⟩
        have later := ih after.length shorter (apart.of_suffix isEnding) rfl
        rw [whole, List.append_assoc, mentions_definition_append defines,
          mentions_definition_append defines, later, List.cons_append]
      | none =>
        have later := ih rest.length (by simp) (apart.of_suffix (List.suffix_cons c rest)) rfl
        -- Where none begins in the first text alone, none begins in the joined one.
        have joined : definition? (c :: (rest ++ second)) = none := by
          rw [Option.eq_none_iff_forall_ne_some]
          rintro ⟨name, after⟩ known
          obtain ⟨stretch, defines, whole⟩ := definition?_eq_some_iff.1 known
          rw [← List.cons_append] at whole
          rcases List.append_eq_append_iff.1 whole with ⟨back, rfl, behind⟩ | ⟨more, within, -⟩
          · -- A definition that goes on behind the first text stands across the seam.
            cases back with
            | nil =>
              rw [List.append_nil] at defines
              have alone := definition?_eq_some_iff.2 ⟨_, defines, (List.append_nil _).symm⟩
              simp [found] at alone
            | cons d back =>
              exact apart name _ _ (List.suffix_refl _) (by simp) ⟨after, behind.symm⟩ (by simp)
                defines
          · have alone := definition?_eq_some_iff.2 ⟨stretch, defines, within⟩
            simp [found] at alone
        rw [List.cons_append, mentions, Text.findAll_cons_of_none joined, mentions,
          Text.findAll_cons_of_none found]
        exact later

/-- Nothing is defined in a text without an equals sign. -/
theorem mentions_eq_nil {text : List Char} (noEquals : '=' ∉ text) : mentions text = [] := by
  induction text with
  | nil => rfl
  | cons c rest ih =>
    have unknown : definition? (c :: rest) = none := by
      rw [Option.eq_none_iff_forall_ne_some]
      -- A definition recognised here would bring its equals sign along.
      rintro ⟨name, after⟩ known
      obtain ⟨stretch, defines, whole⟩ := definition?_eq_some_iff.1 known
      obtain ⟨front, rfl, -⟩ := defines.ends
      refine noEquals ?_
      rw [whole]
      simp
    rw [mentions, Text.findAll_cons_of_none unknown]
    exact ih fun within => noEquals (List.mem_cons_of_mem c within)

/-- Nothing more is defined where no equals sign follows. -/
theorem mentions_append_of_equals_not_mem (first : List Char) {second : List Char}
    (noEquals : '=' ∉ second) : mentions (first ++ second) = mentions first := by
  have apart : AreApart first second := by
    intro name front back _ _ begins nonempty defines
    obtain ⟨ahead, whole, -⟩ := defines.ends
    -- The equals sign of a definition across the seam would stand behind it.
    have last : (front ++ back).getLast? = some '=' := by rw [whole, List.getLast?_concat]
    rw [List.getLast?_append_of_ne_nil _ nonempty] at last
    exact noEquals (begins.subset (List.mem_of_getLast? last))
  rw [mentions_append apart, mentions_eq_nil noEquals, List.append_nil]

/-- A definition does not go past a character that belongs to none. -/
theorem mentions_append_cons (first second : List Char) {c : Char} (other : isDefinitionChar c = false)
    (noEquals : c ≠ '=') : mentions (first ++ c :: second) = mentions first ++ mentions second := by
  have absent {name : String} {stretch : List Char} (defines : IsDefinition name stretch) :
      c ∉ stretch := by
    obtain ⟨ahead, rfl, members⟩ := defines.ends
    rw [List.mem_append, List.mem_singleton, not_or]
    exact ⟨Text.not_mem_of_class members other, noEquals⟩
  -- A definition across either side of the character would hold it.
  have apart : AreApart first (c :: second) := by
    intro name front back _ _ begins nonempty defines
    obtain ⟨d, back, rfl⟩ := List.exists_cons_of_ne_nil nonempty
    obtain rfl := (List.cons_prefix_cons.1 begins).1
    exact absent defines (by simp)
  have alone : AreApart [c] second := by
    intro name front back atEnd nonempty _ _ defines
    rcases List.suffix_cons_iff.1 atEnd with rfl | shorter
    · exact absent defines (by simp)
    · exact nonempty (List.suffix_nil.1 shorter)
  have single : mentions [c] = [] := mentions_eq_nil (by simpa using noEquals.symm)
  rw [mentions_append apart, ← List.singleton_append, mentions_append alone, single, List.nil_append]

/-- A definition ends with the first equals sign it comes to. -/
theorem mentions_append_equals (first second : List Char) :
    mentions (first ++ '=' :: second) = mentions (first ++ ['=']) ++ mentions second := by
  have apart : AreApart (first ++ ['=']) second := by
    intro name front back atEnd nonempty _ backNonempty defines
    obtain ⟨ahead, whole, members⟩ := defines.ends
    -- The first part of a definition across the seam ends with an equals sign, which stays inside.
    have last : '=' ∈ front := by
      obtain ⟨passed, ends⟩ := atEnd
      have same := congrArg List.getLast? ends
      rw [List.getLast?_concat, List.getLast?_append_of_ne_nil _ nonempty] at same
      exact List.mem_of_getLast? same
    have within : '=' ∈ ahead := by
      have shorter := congrArg List.dropLast whole
      rw [List.dropLast_concat, List.dropLast_append_of_ne_nil backNonempty] at shorter
      exact shorter ▸ List.mem_append_left _ last
    exact absurd (members _ within) (by decide)
  rw [← mentions_append apart, List.append_assoc, List.singleton_append]

/-- No definition begins in a text, whatever follows it. -/
def BeginsNothing (text : List Char) : Bool :=
  text.tails.all fun rest => rest.isEmpty || !(rest.isPrefixOf userPath || userPath.isPrefixOf rest)

/-- Only what follows is defined behind a text in which no definition begins. -/
theorem mentions_append_of_beginsNothing {first : List Char} (begins : BeginsNothing first = true)
    (second : List Char) : mentions (first ++ second) = mentions second := by
  induction first with
  | nil => rfl
  | cons c rest ih =>
    rw [BeginsNothing, List.tails_cons, List.all_cons, Bool.and_eq_true] at begins
    obtain ⟨here, later⟩ := begins
    have unknown : definition? (c :: (rest ++ second)) = none := by
      rw [Option.eq_none_iff_forall_ne_some]
      rintro ⟨name, after⟩ known
      obtain ⟨stretch, defines, whole⟩ := definition?_eq_some_iff.1 known
      obtain ⟨more, rfl⟩ := defines.begins
      rw [← List.cons_append] at whole
      -- The path of users would begin here, and so would go along with the text.
      rcases List.prefix_or_prefix_of_prefix ⟨second, rfl⟩
        (⟨more ++ after, by rw [whole, List.append_assoc]⟩ : userPath <+: c :: rest ++ second) with
        shorter | longer
      · simp [List.isPrefixOf_iff_prefix.2 shorter] at here
      · simp [List.isPrefixOf_iff_prefix.2 longer] at here
    rw [List.cons_append, mentions, Text.findAll_cons_of_none unknown]
    exact ih later

/-- No definition begins in a text without the first letter of the path of users. -/
theorem beginsNothing_of_not_mem {text : List Char} (free : 'u' ∉ text) :
    BeginsNothing text = true := by
  have letters : userPath = 'u' :: userPath.tail := by decide
  refine List.all_eq_true.2 fun rest isTail => ?_
  have ending := (List.mem_tails _ _).1 isTail
  cases rest with
  | nil => rfl
  | cons c rest =>
    -- An ending of the text begins with one of its characters, hence not with that letter.
    have other : c ≠ 'u' := fun same => free (same ▸ ending.subset List.mem_cons_self)
    rw [letters]
    simp [List.isPrefixOf, other, other.symm]

end NixKeeper.Managed
