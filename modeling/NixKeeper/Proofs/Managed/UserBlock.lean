import Mathlib.Data.List.Basic
import NixKeeper.Managed.UserBlock
import NixKeeper.Proofs.Managed.Block
import NixKeeper.Proofs.Text.Blank
import NixKeeper.Proofs.Text.Search

/-! What the removal of a user's blocks leaves of a text, and when it changes nothing. -/

namespace NixKeeper.Managed

/-- An expected character is found behind blanks, and only there. -/
theorem afterBlanks?_eq_some_iff {expected : Char} {text rest : List Char}
    (shown : Text.isBlank expected = false) :
    afterBlanks? expected text = some rest ↔
      ∃ blanks, (∀ c ∈ blanks, Text.isBlank c = true) ∧ text = blanks ++ expected :: rest := by
  constructor
  · intro found
    have shape := List.append_eq_of_isPrefixOf?_eq_some found
    -- The blanks are the ones that the trimming takes away.
    refine ⟨text.takeWhile Text.isBlank, fun c => List.mem_takeWhile_imp, ?_⟩
    rw [← List.singleton_append, shape]
    exact List.takeWhile_append_dropWhile.symm
  · rintro ⟨blanks, areBlank, rfl⟩
    -- Trimming stops at the expected character, since that one shows.
    have trimmed : Text.trimStart (blanks ++ expected :: rest) = [expected] ++ rest := by
      rw [Text.trimStart, List.dropWhile_append_of_pos areBlank,
        List.dropWhile_cons_of_neg (by simp [shown])]
      rfl
    rw [afterBlanks?, trimmed]
    exact List.isPrefixOf?_eq_some_iff_append_eq.2 rfl

/-- The head of a definition is recognised exactly where one stands behind spaces. -/
theorem userHead?_eq_some_iff {username : String} {text body : List Char} :
    userHead? username text = some body ↔
      ∃ indentation gap space, (∀ c ∈ indentation, Text.isSpace c = true) ∧
        (∀ c ∈ gap, Text.isBlank c = true) ∧ (∀ c ∈ space, Text.isBlank c = true) ∧
        text = indentation ++ (userPath ++ username.toList ++ (gap ++ '=' :: (space ++ '{' :: body))) := by
  constructor
  · intro found
    simp only [userHead?, Option.bind_eq_bind, Option.bind_eq_some_iff] at found
    obtain ⟨named, atPath, assigned, atEquals, atBrace⟩ := found
    -- Each step of the recognition gives one piece of the head, from the back to the front.
    obtain ⟨gap, areGap, rfl⟩ := (afterBlanks?_eq_some_iff rfl).1 atEquals
    obtain ⟨space, areSpace, rfl⟩ := (afterBlanks?_eq_some_iff rfl).1 atBrace
    refine ⟨text.takeWhile Text.isSpace, gap, space, fun c => List.mem_takeWhile_imp, areGap,
      areSpace, ?_⟩
    rw [List.append_eq_of_isPrefixOf?_eq_some atPath]
    exact List.takeWhile_append_dropWhile.symm
  · rintro ⟨indentation, gap, space, areSpaces, areGap, areSpace, rfl⟩
    -- Trimming stops at the first letter of the path, and every later step finds its character.
    have letters : userPath = 'u' :: userPath.tail := by decide
    have trimmed : (indentation ++ (userPath ++ username.toList ++
        (gap ++ '=' :: (space ++ '{' :: body)))).dropWhile Text.isSpace =
        userPath ++ username.toList ++ (gap ++ '=' :: (space ++ '{' :: body)) := by
      rw [List.dropWhile_append_of_pos areSpaces, letters]
      rfl
    have named : (userPath ++ username.toList).isPrefixOf? (userPath ++ username.toList ++
        (gap ++ '=' :: (space ++ '{' :: body))) = some (gap ++ '=' :: (space ++ '{' :: body)) :=
      List.isPrefixOf?_eq_some_iff_append_eq.2 rfl
    have equals : afterBlanks? '=' (gap ++ '=' :: (space ++ '{' :: body)) = some (space ++ '{' :: body) :=
      (afterBlanks?_eq_some_iff rfl).2 ⟨gap, areGap, rfl⟩
    have brace : afterBlanks? '{' (space ++ '{' :: body) = some body :=
      (afterBlanks?_eq_some_iff rfl).2 ⟨space, areSpace, rfl⟩
    rw [userHead?, trimmed, named]
    simp only [Option.bind_eq_bind, Option.bind_some, equals, brace]

/-- Spaces before a path do not matter for the head of a definition. -/
theorem userHead?_indented {username : String} {indentation text : List Char}
    (areSpaces : ∀ c ∈ indentation, Text.isSpace c = true) :
    userHead? username (indentation ++ text) = userHead? username text := by
  -- Indentation is dropped before the path is looked for.
  rw [userHead?, List.dropWhile_append_of_pos areSpaces, userHead?]

/-- The head of a definition begins with the path, behind spaces. -/
theorem userHead?_cons_eq_none {username : String} {c : Char} (other : c ≠ 'u')
    (shown : Text.isSpace c = false) (rest : List Char) : userHead? username (c :: rest) = none := by
  -- No spaces are dropped before the character, and the path does not begin with it.
  have letters : userPath = 'u' :: userPath.tail := by decide
  have noPath : (userPath ++ username.toList).isPrefixOf? (c :: rest) = none := by
    rw [letters, List.cons_append, List.isPrefixOf?, if_neg (by simpa using other.symm)]
  rw [userHead?, List.dropWhile_cons_of_neg (by simp [shown]), noPath]
  rfl

/-- The head of a definition is in shape: what stands before its equals sign, and what behind. -/
theorem exists_of_userHead? {username : String} {text body : List Char}
    (named : ∀ c ∈ username.toList, Text.isNameChar c = true)
    (head : userHead? username text = some body) :
    ∃ front space, (∀ c ∈ front, Text.isBlank c = true ∨ Text.isPathChar c = true) ∧
      (∀ c ∈ space, Text.isBlank c = true) ∧ text = front ++ '=' :: (space ++ '{' :: body) := by
  obtain ⟨indentation, gap, space, areSpaces, areGap, areSpace, rfl⟩ := userHead?_eq_some_iff.1 head
  -- All pieces before the equals sign are blanks or characters of a path.
  refine ⟨indentation ++ (userPath ++ username.toList ++ gap), space, ?_, areSpace, by simp⟩
  intro c within
  simp only [List.mem_append] at within
  rcases within with atHead | (inPath | inName) | inGap
  · exact .inl (Text.isBlank_of_isSpace (areSpaces c atHead))
  · have path : ∀ c ∈ userPath, Text.isPathChar c = true := List.all_eq_true.1 (by decide)
    exact .inr (path c inPath)
  · exact .inr (by simp [Text.isPathChar, named c inName])
  · exact .inl (areGap c inGap)

/-- No equals sign is a blank or stands in a path. -/
theorem equals_not_mem {front : List Char}
    (members : ∀ c ∈ front, Text.isBlank c = true ∨ Text.isPathChar c = true) : '=' ∉ front := by
  -- An equals sign is neither blank nor on a path.
  intro within
  exact absurd (members '=' within) (by decide)

/-- A text begins no definition if a foreign character stands before its first equals sign. -/
theorem userHead?_eq_none_of_mem {username : String} {front rest : List Char} {c : Char}
    (named : ∀ c ∈ username.toList, Text.isNameChar c = true) (noEquals : '=' ∉ front)
    (within : c ∈ front) (shown : Text.isBlank c = false) (offPath : Text.isPathChar c = false) :
    userHead? username (front ++ rest) = none := by
  rw [Option.eq_none_iff_forall_ne_some]
  intro body head
  obtain ⟨before, space, members, -, whole⟩ := exists_of_userHead? named head
  -- All of the front stands before the equals sign of the definition.
  have begins : front <+: before := Text.prefix_of_not_mem noEquals whole.symm
  rcases members c (begins.subset within) with blank | onPath
  · exact Bool.false_ne_true (shown.symm.trans blank)
  · exact Bool.false_ne_true (offPath.symm.trans onPath)

/-- An assignment begins no definition if its value does not begin with a brace. -/
theorem userHead?_eq_none_of_value {username : String} {path space rest : List Char} {c : Char}
    (named : ∀ c ∈ username.toList, Text.isNameChar c = true) (noEquals : '=' ∉ path)
    (areBlank : ∀ c ∈ space, Text.isBlank c = true) (shown : Text.isBlank c = false)
    (noBrace : c ≠ '{') : userHead? username (path ++ '=' :: (space ++ c :: rest)) = none := by
  rw [Option.eq_none_iff_forall_ne_some]
  intro body head
  obtain ⟨before, gap, members, areGap, whole⟩ := exists_of_userHead? named head
  -- The first equals sign is that of the definition, and behind it the first visible character counts.
  obtain ⟨-, behind⟩ := Text.eq_of_append_cons_eq noEquals (equals_not_mem members) whole
  have values := congrArg Text.trimStart behind
  rw [Text.trimStart, Text.trimStart, List.dropWhile_append_of_pos areBlank,
    List.dropWhile_append_of_pos areGap, List.dropWhile_cons_of_neg (by simp [shown]),
    List.dropWhile_cons_of_neg (by decide)] at values
  exact noBrace (List.cons.inj values).1

/-- Passing over an optional character leaves an ending of the text. -/
theorem skipChar_suffix (optional : Char) (text : List Char) : skipChar optional text <:+ text := by
  rw [skipChar]
  -- The sign is dropped or it is not there.
  cases found : [optional].isPrefixOf? text with
  | none => exact List.suffix_refl text
  | some rest => exact ⟨[optional], List.append_eq_of_isPrefixOf?_eq_some found⟩

/-- What follows a block is an ending of the text behind its brace. -/
theorem afterBlock_suffix (text : List Char) : afterBlock text <:+ text :=
  -- Each of the four steps only drops characters in front.
  (skipChar_suffix _ _).trans ((List.dropWhile_suffix _).trans
    ((skipChar_suffix _ _).trans (List.dropWhile_suffix _)))

/-- A closed block is a stretch at the head of the text, with its closing brace and what it takes along. -/
theorem exists_block {username : String} {text body inner after : List Char}
    (head : userHead? username text = some body)
    (closed : splitBlock 0 false false body = some (inner, after)) :
    ∃ block, block ≠ [] ∧ text = block ++ afterBlock after := by
  obtain ⟨indentation, gap, space, -, -, -, rfl⟩ := userHead?_eq_some_iff.1 head
  obtain ⟨taken, shape⟩ := afterBlock_suffix after
  -- The block is the head, the body with its closing brace, and the line feed that goes with it.
  refine ⟨indentation ++ (userPath ++ username.toList ++ (gap ++ '=' :: (space ++
    '{' :: (inner ++ '}' :: taken)))), by simp, ?_⟩
  rw [(splitBlock_eq_some_iff.1 closed).1]
  conv => lhs; rw [← shape]
  simp

/-- A line begins behind a stretch of text, given whether one began before it. -/
def beginsLine (lineStart : Bool) (passed : List Char) : Bool :=
  -- Behind no characters nothing has changed.
  passed.getLast?.elim lineStart (· == '\n')

/-- Only the last character that was passed decides whether a line begins. -/
theorem beginsLine_cons (lineStart : Bool) (c : Char) (passed : List Char) :
    beginsLine lineStart (c :: passed) = beginsLine (c == '\n') passed := by
  -- Only the last character decides, or the character in front where there is none.
  cases passed with
  | nil => rfl
  | cons d passed => simp [beginsLine, List.getLast?_cons]

/-- The characters of a removed block leave no trace, except that a line may begin behind them. -/
theorem removeUserFrom_append (username : String) (lineStart : Bool) (removed rest : List Char) :
    removeUserFrom username removed.length lineStart (removed ++ rest) =
      removeUserFrom username 0 (beginsLine lineStart removed) rest := by
  -- Whether a line begins is decided anew by each character.
  induction removed generalizing lineStart with
  | nil => rfl
  | cons c removed ih =>
    rw [List.length_cons, List.cons_append, removeUserFrom, ih, beginsLine_cons]

/-- A character stays where no definition of the user begins a line. -/
theorem removeUserFrom_of_noHead {username : String} {lineStart : Bool} {c : Char} {rest : List Char}
    (noHead : lineStart = true → userHead? username (c :: rest) = none) :
    removeUserFrom username 0 lineStart (c :: rest) =
      c :: removeUserFrom username 0 (c == '\n') rest := by
  -- Within a line no block is looked for.
  cases lineStart with
  | false => simp [removeUserFrom]
  | true => simp [removeUserFrom, noHead rfl]

/-- A definition whose block is never closed stays with everything behind it. -/
theorem removeUserFrom_of_unclosed {username : String} {text body : List Char}
    (head : userHead? username text = some body) (unclosed : splitBlock 0 false false body = none) :
    removeUserFrom username 0 true text = text := by
  cases text with
  | nil => rfl
  -- A block without an end stops the search.
  | cons c rest => simp [removeUserFrom, head, unclosed]

/-- A closed block that begins a line goes. -/
theorem removeUserFrom_of_closed {username : String} {block rest body inner after : List Char}
    (head : userHead? username (block ++ rest) = some body)
    (closed : splitBlock 0 false false body = some (inner, after)) (ending : afterBlock after = rest)
    (nonempty : block ≠ []) :
    removeUserFrom username 0 true (block ++ rest) =
      removeUserFrom username 0 (beginsLine true block) rest := by
  obtain ⟨c, passed, rfl⟩ := List.exists_cons_of_ne_nil nonempty
  rw [List.cons_append] at head ⊢
  rw [removeUserFrom]
  -- The characters of the block behind its first one are counted down.
  simp only [if_true, head, closed, ending, List.length_append, Nat.add_sub_cancel]
  rw [removeUserFrom_append, ← beginsLine_cons true]

/-- A line stays as it is if no definition of the user begins at it. -/
theorem removeUserFrom_line {username : String} {lineStart : Bool} {text : List Char}
    (oneLine : '\n' ∉ text) (rest : List Char)
    (noHead : lineStart = true → userHead? username (text ++ '\n' :: rest) = none) :
    removeUserFrom username 0 lineStart (text ++ '\n' :: rest) =
      text ++ '\n' :: removeUserFrom username 0 true rest := by
  -- Behind the first character of a line no definition is looked for until the next line.
  induction text generalizing lineStart with
  | nil => exact removeUserFrom_of_noHead noHead
  | cons c text ih =>
    obtain ⟨different, oneLine⟩ := not_or.1 (mt List.mem_cons.2 oneLine)
    have middle : (c == '\n') = false := by simpa using Ne.symm different
    rw [List.cons_append] at noHead ⊢
    rw [removeUserFrom_of_noHead noHead, middle, @ih false oneLine nofun]
    rfl

/-- The removal of a user's blocks turns one text into another, whatever follows. -/
def Scrubs (username : String) (before after : List Char) : Prop :=
  -- What is left does not depend on what follows.
  ∀ rest, removeUserFrom username 0 true (before ++ rest) =
    after ++ removeUserFrom username 0 true rest

namespace Scrubs

variable {username : String} {before after : List Char}

/-- An empty text stays empty. -/
theorem nil : Scrubs username [] [] :=
  -- Nothing stands in front of the rest.
  fun _ => rfl

/-- Texts one behind the other are scrubbed each by itself. -/
theorem append {second scrubbed : List Char} (first : Scrubs username before after)
    (later : Scrubs username second scrubbed) :
    Scrubs username (before ++ second) (after ++ scrubbed) := by
  -- The first part is scrubbed in front of the second.
  intro rest
  rw [List.append_assoc, first, later, List.append_assoc]

/-- Texts written for several items are scrubbed item by item. -/
theorem flatMap {α : Type} {items : List α} {written left : α → List Char}
    (each : ∀ item ∈ items, Scrubs username (written item) (left item)) :
    Scrubs username (items.flatMap written) (items.flatMap left) := by
  induction items with
  | nil => exact nil
  | cons item rest ih =>
    -- One item after another, each in front of all that follow.
    obtain ⟨own, later⟩ := List.forall_mem_cons.1 each
    rw [List.flatMap_cons, List.flatMap_cons]
    exact own.append (ih later)

/-- The removal from a whole text. -/
theorem removeUserBlock_eq (scrubs : Scrubs username before after) :
    removeUserBlock username before = after := by
  -- Nothing behind the text is the special case to be read off.
  have whole := scrubs []
  rwa [List.append_nil, removeUserFrom, List.append_nil] at whole

end Scrubs

/--
A text and what is left of it without the blocks of a user, character by character and block by block.

The flag tells whether the text begins a line.
-/
inductive Removal (username : String) : Bool → List Char → List Char → Prop where
  /-- Nothing is left to read. -/
  | done {lineStart : Bool} : Removal username lineStart [] []
  /-- A character stays where no definition of the user begins a line. -/
  | keep {lineStart : Bool} {c : Char} {rest result : List Char}
      (noHead : lineStart = true → userHead? username (c :: rest) = none)
      (later : Removal username (c == '\n') rest result) :
      Removal username lineStart (c :: rest) (c :: result)
  /-- A block that is never closed stays with everything behind it. -/
  | stop {text body : List Char} (head : userHead? username text = some body)
      (unclosed : splitBlock 0 false false body = none) : Removal username true text text
  /-- A closed block goes with the rest of its line. -/
  | cut {block body inner after rest result : List Char}
      (head : userHead? username (block ++ rest) = some body)
      (closed : splitBlock 0 false false body = some (inner, after))
      (ending : afterBlock after = rest) (nonempty : block ≠ [])
      (later : Removal username (beginsLine true block) rest result) :
      Removal username true (block ++ rest) result

/-- The removal does what the relation describes. -/
theorem removal_removeUserFrom (username : String) (lineStart : Bool) (text : List Char) :
    Removal username lineStart text (removeUserFrom username 0 lineStart text) := by
  -- Every step leaves a shorter text, by one character or by a whole block.
  induction size : text.length using Nat.strongRecOn generalizing text lineStart with
  | ind size ih =>
    subst size
    cases text with
    | nil => exact .done
    | cons c rest =>
      have later := ih rest.length (by simp) (c == '\n') rest rfl
      by_cases noHead : lineStart = true → userHead? username (c :: rest) = none
      · rw [removeUserFrom_of_noHead noHead]
        exact .keep noHead later
      · -- Only at the beginning of a line can a definition stand here.
        obtain ⟨rfl, isHead⟩ := Classical.not_imp.1 noHead
        obtain ⟨body, head⟩ := Option.ne_none_iff_exists'.1 isHead
        cases closed : splitBlock 0 false false body with
        | none =>
          rw [removeUserFrom_of_unclosed head closed]
          exact .stop head closed
        | some cutting =>
          obtain ⟨inner, after⟩ := cutting
          obtain ⟨block, nonempty, whole⟩ := exists_block head closed
          have positive := List.length_pos_iff.2 nonempty
          have shorter : (afterBlock after).length < (c :: rest).length := by
            rw [whole, List.length_append]
            omega
          rw [whole] at head ⊢
          rw [removeUserFrom_of_closed head closed rfl nonempty]
          exact .cut head closed rfl nonempty (ih _ shorter _ _ rfl)

namespace Removal

variable {username : String} {lineStart : Bool} {text result word : List Char}

/-- In the middle of a line, what is left begins the line as the text does. -/
theorem prefix_of_prefix_result (removal : Removal username lineStart text result)
    (inLine : lineStart = false) (oneLine : '\n' ∉ word) (begins : word <+: result) :
    word <+: text := by
  -- A block is removed only at the beginning of a line, which lies behind the word.
  induction removal generalizing word with
  | done => exact begins
  | keep noHead later ih =>
    rcases List.prefix_cons_iff.1 begins with rfl | ⟨tail, rfl, beginsLater⟩
    · exact List.nil_prefix
    · obtain ⟨different, oneLine⟩ := not_or.1 (mt List.mem_cons.2 oneLine)
      have still := ih (by simpa using Ne.symm different) oneLine beginsLater
      exact List.cons_prefix_cons.2 ⟨rfl, still⟩
  | stop => contradiction
  | cut => contradiction

/-- A word on one line of what is left stands in the text already. -/
theorem infix_of_infix_result (removal : Removal username lineStart text result) (oneLine : '\n' ∉ word)
    (within : word <:+: result) : word <:+: text := by
  -- Each cut begins where a line does, so it joins nothing to what stands before it.
  induction removal with
  | done => exact within
  | @keep _ c _ _ noHead later ih =>
    rcases List.infix_cons_iff.1 within with begins | inLater
    · rcases List.prefix_cons_iff.1 begins with rfl | ⟨tail, rfl, beginsLater⟩
      · exact List.nil_infix
      · obtain ⟨different, oneLine⟩ := not_or.1 (mt List.mem_cons.2 oneLine)
        have still := later.prefix_of_prefix_result (by simpa using Ne.symm different) oneLine beginsLater
        exact (List.cons_prefix_cons.2 ⟨rfl, still⟩).isInfix
    · exact List.infix_cons (ih inLater)
  | stop => exact within
  | cut _ _ _ _ _ ih => exact List.infix_append_of_infix_right (ih within)

end Removal

/-- A word on one line that stands in a text after the removal of blocks stood there before. -/
theorem infix_of_infix_removeUserBlock {username : String} {word text : List Char}
    (oneLine : '\n' ∉ word) (within : word <:+: removeUserBlock username text) :
    word <:+: text :=
  -- Removing only drops stretches that end at a line's beginning.
  (removal_removeUserFrom username true text).infix_of_infix_result oneLine within

/-- The text behind the brace of the first definition of a user that begins a line. -/
def firstBody? (username : String) : Bool → List Char → Option (List Char)
  | _, [] => none
  -- Only the beginning of a line can have a head.
  | lineStart, c :: rest =>
    (if lineStart then userHead? username (c :: rest) else none).orElse fun _ =>
      firstBody? username (c == '\n') rest

/-- The first definition of a user that begins a line has a block that is closed. -/
def HasOwnBlock (username : String) (text : List Char) : Prop :=
  -- Definitions behind one that is never closed do not count.
  ∃ body, firstBody? username true text = some body ∧ (splitBlock 0 false false body).isSome

/--
Either nothing was removed and the first definition is missing or never closed, or the text has
become shorter and the first definition has a closed block.
-/
theorem Removal.settled_or_shorter {username : String} {lineStart : Bool} {text result : List Char}
    (removal : Removal username lineStart text result) :
    (result = text ∧
      ∀ body, firstBody? username lineStart text = some body →
        splitBlock 0 false false body = none) ∨
    (result.length < text.length ∧
      ∃ body, firstBody? username lineStart text = some body ∧
        (splitBlock 0 false false body).isSome) := by
  induction removal with
  | done => exact .inl ⟨rfl, by simp [firstBody?]⟩
  | @keep lineStart c rest result noHead later ih =>
    -- A character that begins no definition leaves the search for the first one to the rest.
    have passed : firstBody? username lineStart (c :: rest) =
        firstBody? username (c == '\n') rest := by
      cases lineStart with
      | false => simp [firstBody?]
      | true => simp [firstBody?, noHead rfl]
    rw [passed]
    rcases ih with ⟨rfl, unclosed⟩ | ⟨shorter, closed⟩
    · exact .inl ⟨rfl, unclosed⟩
    · exact .inr ⟨by simpa using shorter, closed⟩
  | @stop text body head unclosed =>
    cases text with
    | nil => exact .inl ⟨rfl, by simp [firstBody?]⟩
    | cons c rest =>
      have first : firstBody? username true (c :: rest) = some body := by simp [firstBody?, head]
      exact .inl ⟨rfl, fun other same => by rwa [← Option.some.inj (first.symm.trans same)]⟩
  | @cut block body inner after rest result head closed ending nonempty later ih =>
    obtain ⟨c, passed, rfl⟩ := List.exists_cons_of_ne_nil nonempty
    have first : firstBody? username true (c :: passed ++ rest) = some body := by
      rw [List.cons_append] at head ⊢
      simp [firstBody?, head]
    -- What follows the block can only become shorter as well.
    have bounded : result.length ≤ rest.length := by
      rcases ih with ⟨rfl, -⟩ | ⟨shorter, -⟩
      · exact Nat.le_refl _
      · exact Nat.le_of_lt shorter
    refine .inr ⟨?_, body, first, by simp [closed]⟩
    simp only [List.length_append, List.length_cons]
    omega

/-- The removal of a user's blocks changes nothing, or it makes the text shorter. -/
theorem removeUserBlock_eq_or_shorter (username : String) (text : List Char) :
    removeUserBlock username text = text ∨
      (removeUserBlock username text).length < text.length :=
  -- A removal drops something or leaves the text.
  (removal_removeUserFrom username true text).settled_or_shorter.imp And.left And.left

/-- The removal of a user's blocks changes exactly the texts with a closed block of that user. -/
theorem removeUserBlock_eq_self_iff {username : String} {text : List Char} :
    removeUserBlock username text = text ↔ ¬ HasOwnBlock username text := by
  rcases (removal_removeUserFrom username true text).settled_or_shorter with
    ⟨same, unclosed⟩ | ⟨shorter, closed⟩
  · refine iff_of_true same ?_
    rintro ⟨body, first, closed⟩
    simp [unclosed body first] at closed
  · -- A shorter text is not the same one.
    refine iff_of_false (fun same => ?_) (not_not_intro closed)
    have equal : (removeUserFrom username 0 true text).length = text.length := congrArg _ same
    omega

end NixKeeper.Managed
