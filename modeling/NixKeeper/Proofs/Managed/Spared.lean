import NixKeeper.Proofs.Managed.Definitions
import NixKeeper.Proofs.Managed.Merge

/-! Blocks of other users stay over a merge: which stretches of a text the removal of users spares. -/

namespace NixKeeper.Managed

/-- What follows the brace of a definition does not matter for its head. -/
theorem userHead?_append_iff {username : String} {text body more : List Char} :
    userHead? username (text ++ more) = some (body ++ more) ↔ userHead? username text = some body := by
  simp only [userHead?_eq_some_iff]
  refine exists_congr fun indentation => exists_congr fun gap => exists_congr fun space => ?_
  refine and_congr_right fun _ => and_congr_right fun _ => and_congr_right fun _ => ?_
  -- The pieces of the head are the same ones on both sides, with more text behind them.
  have shape : indentation ++ (userPath ++ username.toList ++ (gap ++ '=' :: (space ++ '{' :: (body ++ more)))) =
      indentation ++ (userPath ++ username.toList ++ (gap ++ '=' :: (space ++ '{' :: body))) ++ more := by
    simp
  rw [shape, List.append_left_inj]

/-- A text has no head at its beginning if it has none there with more text behind it. -/
theorem userHead?_eq_none_of_append {username : String} {text more : List Char}
    (noHead : userHead? username (text ++ more) = none) : userHead? username text = none := by
  rw [Option.eq_none_iff_forall_ne_some]
  intro body head
  -- A head stays one, whatever follows.
  have longer := (@userHead?_append_iff _ _ _ more).2 head
  rw [noHead] at longer
  contradiction

/-- What follows the block of a user that begins a line behind some text, if one does. -/
def ownBlock? (username : String) (front rest : List Char) : Option (List Char) := do
  -- Only spaces may stand before the path on its line.
  if !beginsLine true (Text.dropEndWhile Text.isSpace front) then none
  let _ ← userPath.isPrefixOf? rest
  let body ← userHead? username rest
  let (_, after) ← splitBlock 0 false false body
  return afterBlock after

/--
No block of a user shares characters with a stretch of a text.

One that begins before the stretch ends before it, and none begins inside. A block at the very
beginning of the stretch is left out here, because its name tells whose it is.
-/
def KeepsClear (username : String) (ahead stretch behind : List Char) : Prop :=
  let text := ahead ++ stretch ++ behind
  ∀ place ≤ text.length, ∀ after ∈ ownBlock? username (text.take place) (text.drop place),
    -- The first half is about cuts in front, and the second about those behind.
    (place < ahead.length → (stretch ++ behind).length ≤ after.length) ∧
      (ahead.length < place → (ahead ++ stretch).length ≤ place)

instance (username : String) (ahead stretch behind : List Char) :
    Decidable (KeepsClear username ahead stretch behind) :=
  inferInstanceAs (Decidable (∀ place ≤ (ahead ++ stretch ++ behind).length, _))

/-- A stretch of a text is outside the blocks of several users, however many of them are gone. -/
def IsOutside : List String → List Char → List Char → List Char → Prop
  | [], _, _, _ => True
  | username :: later, ahead, stretch, behind =>
    KeepsClear username ahead stretch behind ∧
      -- The users are removed one after another, so the next ones are looked for in what is left.
      ∀ rest, removeUserBlock username (ahead ++ stretch ++ behind) =
          removeUserBlock username ahead ++ stretch ++ rest →
        IsOutside later (removeUserBlock username ahead) stretch rest

/-- A block of a user, from the path of the user to the semicolon behind the brace. -/
structure IsUserBlock (username : String) (block : List Char) : Prop where
  named : ∀ c ∈ username.toList, Text.isNameChar c = true
  begins : userPath <+: block
  closed : ∃ body inner, userHead? username block = some body ∧
    splitBlock 0 false false body = some (inner, [';'])

/-- A block of a user begins with a letter, and a semicolon ends it. -/
theorem IsUserBlock.shape {username : String} {block : List Char} (isBlock : IsUserBlock username block) :
    ∃ inner, block = 'u' :: (inner ++ [';']) := by
  obtain ⟨body, inner, head, closed⟩ := isBlock.closed
  obtain ⟨indentation, gap, space, -, -, -, whole⟩ := userHead?_eq_some_iff.1 head
  obtain ⟨rfl, -⟩ := splitBlock_eq_some_iff.1 closed
  obtain ⟨rest, begins⟩ := isBlock.begins
  -- The block begins with its path, and its last character is the semicolon that it takes along.
  have letters : userPath = 'u' :: userPath.tail := by decide
  have last : block.getLast? = some ';' := by
    rw [whole]
    simp [List.getLast?_append, List.getLast?_cons]
  rw [letters, List.cons_append] at begins
  rw [← begins] at last ⊢
  rcases List.eq_nil_or_concat (userPath.tail ++ rest) with empty | ⟨inner, final, ending⟩
  · rw [empty] at last
    exact absurd last (by decide)
  · rw [List.concat_eq_append] at ending
    rw [ending, ← List.cons_append, List.getLast?_concat, Option.some.injEq] at last
    exact ⟨inner, by rw [ending, last]⟩

/-- The head of a definition at a path is followed by the name and the equals sign. -/
theorem userHead?_of_path {username : String} {text body : List Char} (begins : userPath <+: text)
    (head : userHead? username text = some body) :
    ∃ gap space, (∀ c ∈ gap, Text.isBlank c = true) ∧ (∀ c ∈ space, Text.isBlank c = true) ∧
      text = userPath ++ username.toList ++ (gap ++ '=' :: (space ++ '{' :: body)) := by
  obtain ⟨indentation, gap, space, areSpaces, areGap, areSpace, rfl⟩ := userHead?_eq_some_iff.1 head
  cases indentation with
  | nil => exact ⟨gap, space, areGap, areSpace, rfl⟩
  | cons c indentation =>
    -- No space is the first letter of the path.
    have letters : userPath = 'u' :: userPath.tail := by decide
    rw [letters] at begins
    have first := (List.cons_prefix_cons.1 begins).1
    exact absurd (areSpaces c List.mem_cons_self) (first ▸ by decide)

/-- The block of a user is not the one of another user. -/
theorem IsUserBlock.userHead?_eq_none {username other : String} {block : List Char}
    (isBlock : IsUserBlock username block) (named : ∀ c ∈ other.toList, Text.isNameChar c = true)
    (different : other ≠ username) (rest : List Char) : userHead? other (block ++ rest) = none := by
  rw [Option.eq_none_iff_forall_ne_some]
  intro body head
  -- A head at the same place would be written with the same path, and so with the same name.
  obtain ⟨ownBody, -, ownHead, -⟩ := isBlock.closed
  obtain ⟨gap, space, areGap, -, whole⟩ := userHead?_of_path isBlock.begins ownHead
  have begins : userPath <+: block ++ rest := isBlock.begins.trans (List.prefix_append _ _)
  obtain ⟨otherGap, otherSpace, areOther, -, same⟩ := userHead?_of_path begins head
  rw [whole] at same
  simp only [List.append_assoc, List.cons_append] at same
  have behind := List.append_cancel_left same
  exact different (String.toList_inj.1 (name_eq_of_gap isBlock.named named areGap areOther behind).symm)

/-- A path of users does not begin a text that comes to a brace before it comes to a point. -/
theorem not_prefix_of_brace {word front rest : List Char} (point : '.' ∈ word) (noBrace : '{' ∉ word)
    (noPoint : '.' ∉ front) (brace : '{' ∈ front) : ¬ word <+: front ++ rest := by
  intro begins
  rcases List.prefix_or_prefix_of_prefix begins (List.prefix_append front rest) with shorter | longer
  · exact noPoint (shorter.subset point)
  · exact noBrace (longer.subset brace)

/-- The head of a definition does not reach into a text that begins with the path of users. -/
theorem userHead?_before_path {username : String} {ahead behind body : List Char}
    (named : ∀ c ∈ username.toList, Text.isNameChar c = true) (begins : userPath <+: behind)
    (head : userHead? username (ahead ++ behind) = some body) :
    (∀ c ∈ ahead, Text.isSpace c = true) ∨ ∃ inner, body = inner ++ behind := by
  obtain ⟨indentation, gap, space, areSpaces, areGap, areSpace, whole⟩ := userHead?_eq_some_iff.1 head
  -- Behind the path the head has no more points, and it ends with a brace.
  let middle := username.toList ++ (gap ++ '=' :: (space ++ ['{']))
  have noPoint : '.' ∉ middle := by
    have outside : '.' ∉ username.toList := Text.not_mem_of_class named rfl
    have gapFree : '.' ∉ gap := Text.not_mem_of_class areGap rfl
    have spaceFree : '.' ∉ space := Text.not_mem_of_class areSpace rfl
    simp [middle, outside, gapFree, spaceFree]
  have brace : '{' ∈ middle := by simp [middle]
  have shape : userPath ++ username.toList ++ (gap ++ '=' :: (space ++ '{' :: body)) =
      userPath ++ (middle ++ body) := by simp [middle]
  have braceless : '{' ∉ userPath := by decide
  have dotted : '.' ∈ userPath := by decide
  rw [shape] at whole
  -- The second text begins in the indentation, behind the brace, in the head or in the path.
  rcases List.append_eq_append_iff.1 whole with ⟨more, rfl, -⟩ | ⟨front, rfl, inHead⟩
  · exact .inl fun c within => areSpaces c (List.mem_append_left _ within)
  rcases List.append_eq_append_iff.1 inHead with ⟨back, rfl, rest⟩ | ⟨passed, parted, rest⟩
  · rcases List.append_eq_append_iff.1 rest with ⟨inner, -, same⟩ | ⟨across, within, same⟩
    · exact .inr ⟨inner, same⟩
    · -- What the head has in the second text would end with the brace.
      cases across with
      | nil => exact .inr ⟨[], same.symm⟩
      | cons c across =>
        have last : middle.getLast? = some '{' := by
          simp [middle, List.getLast?_append, List.getLast?_cons]
        rw [within, List.getLast?_append_of_ne_nil _ (by simp)] at last
        have inside : '.' ∉ c :: across := fun point => noPoint (within ▸ List.mem_append_right _ point)
        rw [same] at begins
        exact absurd begins (not_prefix_of_brace dotted braceless inside (List.mem_of_getLast? last))
  · -- The rest of the path would begin the second text, and so be a beginning of the path too.
    have restBegins : passed <+: userPath := by
      refine List.prefix_of_prefix_length_le (rest ▸ List.prefix_append _ _) begins ?_
      rw [parted, List.length_append]
      omega
    have borders : ∀ ending ∈ userPath.tails, ending.isPrefixOf userPath = true →
        ending = userPath ∨ ending = "users.".toList ∨ ending = [] := by decide
    have isTail : passed ∈ userPath.tails := (List.mem_tails _ _).2 ⟨front, parted.symm⟩
    have absent (word : List Char) (point : '.' ∈ word) (noBrace : '{' ∉ word)
        (same : userPath = passed ++ word) : False := by
      rw [rest, same, List.prefix_append_right_inj] at begins
      exact not_prefix_of_brace point noBrace noPoint brace begins
    rcases borders passed isTail (List.isPrefixOf_iff_prefix.2 restBegins) with rfl | rfl | rfl
    · have empty : front = [] := List.self_eq_append_left.1 parted
      rw [empty, List.append_nil]
      exact .inl areSpaces
    · exact (absent "users.".toList (by decide) (by decide) (by decide)).elim
    · exact (absent userPath dotted braceless rfl).elim

/-- An optional character is passed over before a text that does not begin with it. -/
theorem skipChar_append {optional : Char} (text : List Char) {c : Char} {rest : List Char}
    (other : c ≠ optional) : skipChar optional (text ++ c :: rest) = skipChar optional text ++ c :: rest := by
  cases text with
  | nil => simp [skipChar, List.isPrefixOf?, other.symm]
  | cons d text =>
    -- Only the first character of the text matters.
    by_cases same : optional = d
    · simp [skipChar, List.isPrefixOf?, same]
    · simp [skipChar, List.isPrefixOf?, same]

/-- What a block takes along ends before a letter. -/
theorem afterBlock_append (text rest : List Char) :
    afterBlock (text ++ 'u' :: rest) = afterBlock text ++ 'u' :: rest := by
  -- The letter is neither blank nor one of the optional signs, so the cut ends before it.
  rw [afterBlock, Text.dropWhile_append_of_head _ rfl, skipChar_append _ (by decide),
    Text.dropWhile_append_of_head _ rfl, skipChar_append _ (by decide), afterBlock]

/-- What another block takes along ends before the block of a user. -/
theorem IsUserBlock.afterBlock_append {username : String} {block : List Char}
    (isBlock : IsUserBlock username block) (text rest : List Char) :
    afterBlock (text ++ (block ++ rest)) = afterBlock text ++ (block ++ rest) := by
  -- A block begins with the first letter of its path.
  obtain ⟨inner, rfl⟩ := isBlock.shape
  exact Managed.afterBlock_append _ _

/-- No closed block of a user begins a line of a text. -/
def HasNoOwnBlock (username : String) (lineStart : Bool) (text behind : List Char) : Prop :=
  -- A head may stand in the text, but its block has no end.
  ∀ start rest body, text = start ++ rest → rest ≠ [] → beginsLine lineStart start = true →
    userHead? username (rest ++ behind) = some body → splitBlock 0 false false body = none

/-- A stretch in which no block of the user begins stays as it is. -/
theorem exists_removeUserFrom_append {username : String} {lineStart : Bool} {text behind : List Char}
    (none : HasNoOwnBlock username lineStart text behind) :
    ∃ rest, removeUserFrom username 0 lineStart (text ++ behind) = text ++ rest := by
  induction text generalizing lineStart with
  | nil => exact ⟨_, rfl⟩
  | cons c text ih =>
    -- What holds of the whole stretch holds behind its first character.
    have later : HasNoOwnBlock username (c == '\n') text behind := by
      intro start rest body whole nonempty begins
      refine none (c :: start) rest body (by rw [whole, List.cons_append]) nonempty ?_
      rwa [beginsLine_cons]
    obtain ⟨rest, kept⟩ := ih later
    by_cases noHead : lineStart = true → userHead? username (c :: (text ++ behind)) = Option.none
    · refine ⟨rest, ?_⟩
      rw [List.cons_append, removeUserFrom_of_noHead noHead, kept, List.cons_append]
    · -- A definition whose block is never closed ends the search.
      obtain ⟨rfl, isHead⟩ := Classical.not_imp.1 noHead
      obtain ⟨body, head⟩ := Option.ne_none_iff_exists'.1 isHead
      have unclosed := none [] (c :: text) body rfl (by simp) rfl head
      exact ⟨behind, removeUserFrom_of_unclosed head unclosed⟩

/-- The closed blocks of a user in a text leave a stretch of it alone, from some place on. -/
def Spares (username : String) (lineStart : Bool) (ahead stretch behind : List Char) : Prop :=
  ∀ start indentation rest body inner after,
    ahead ++ (stretch ++ behind) = start ++ (indentation ++ rest) →
    beginsLine lineStart start = true → (∀ c ∈ indentation, Text.isSpace c = true) →
    userPath <+: rest → userHead? username rest = some body →
    splitBlock 0 false false body = some (inner, after) →
    -- A cut that begins in front ends there, and one that begins behind stays behind.
    ((start ++ indentation).length < ahead.length →
        (stretch ++ behind).length ≤ (afterBlock after).length) ∧
      (ahead.length < (start ++ indentation).length →
        (ahead ++ stretch).length ≤ (start ++ indentation).length)

/-- Spaces behind the beginning of a line are dropped back to it. -/
theorem dropEndWhile_append_of_beginsLine {start indentation : List Char}
    (begins : beginsLine true start = true) (areSpaces : ∀ c ∈ indentation, Text.isSpace c = true) :
    Text.dropEndWhile Text.isSpace (start ++ indentation) = start := by
  have dropped : ∀ c ∈ indentation.reverse, Text.isSpace c = true := fun c within =>
    areSpaces c (List.mem_reverse.1 within)
  rw [Text.dropEndWhile, List.reverse_append, List.dropWhile_append_of_pos dropped]
  -- Dropping stops at the line feed before the spaces, or at the beginning of the text.
  rcases List.eq_nil_or_concat start with rfl | ⟨front, last, rfl⟩
  · rfl
  · rw [List.concat_eq_append] at begins ⊢
    have isLineFeed : last = '\n' := by simpa [beginsLine] using begins
    rw [List.reverse_concat, isLineFeed, List.dropWhile_cons_of_neg (by decide),
      List.reverse_cons, List.reverse_reverse]

/-- A stretch that is clear of the blocks of a user is left alone by them. -/
theorem KeepsClear.spares {username : String} {ahead stretch behind : List Char}
    (clear : KeepsClear username ahead stretch behind) : Spares username true ahead stretch behind := by
  intro start indentation rest body inner after whole begins areSpaces path head closed
  have shape : ahead ++ stretch ++ behind = start ++ indentation ++ rest := by
    rw [List.append_assoc, whole, List.append_assoc]
  have bounded : (start ++ indentation).length ≤ (ahead ++ stretch ++ behind).length := by
    rw [shape]
    simp
  -- A closed block behind the indentation is what the decidable condition looks for.
  have found : ownBlock? username (start ++ indentation) rest = some (afterBlock after) := by
    obtain ⟨more, rfl⟩ := path
    have atPath : userPath.isPrefixOf? (userPath ++ more) = some more :=
      List.isPrefixOf?_eq_some_iff_append_eq.2 rfl
    rw [ownBlock?, dropEndWhile_append_of_beginsLine begins areSpaces, begins, atPath]
    simp [head, closed]
  refine clear _ bounded _ ?_
  rw [shape, List.take_left, List.drop_left, found]
  rfl

namespace Spares

variable {username : String} {lineStart : Bool} {ahead stretch behind : List Char}

/-- What is spared in a text is spared behind its first character. -/
theorem of_cons {c : Char} (spares : Spares username lineStart (c :: ahead) stretch behind) :
    Spares username (c == '\n') ahead stretch behind := by
  intro start indentation rest body inner after whole begins areSpaces path head closed
  -- The same stretch is seen one character further on.
  have both := spares (c :: start) indentation rest body inner after
    (by rw [List.cons_append, whole, List.cons_append]) (by rwa [beginsLine_cons]) areSpaces path
    head closed
  simp only [List.cons_append, List.length_cons] at both
  omega

/-- What is spared in a text is spared behind any beginning of it. -/
theorem of_append {front : List Char}
    (spares : Spares username lineStart (front ++ ahead) stretch behind) :
    Spares username (beginsLine lineStart front) ahead stretch behind := by
  induction front generalizing lineStart with
  | nil => exact spares
  | cons c front ih =>
    -- One character of the text in front at a time.
    rw [beginsLine_cons]
    exact ih spares.of_cons

end Spares

/-- No block of another user begins inside of a block that is spared, or where it begins. -/
theorem hasNoOwnBlock_of_spares {username other : String} {lineStart : Bool} {block behind : List Char}
    (isBlock : IsUserBlock username block) (named : ∀ c ∈ other.toList, Text.isNameChar c = true)
    (different : other ≠ username) (spares : Spares other lineStart [] block behind) :
    HasNoOwnBlock other lineStart block behind := by
  intro start rest body whole nonempty begins head
  obtain ⟨indentation, gap, space, areSpaces, areGap, areSpace, shape⟩ := userHead?_eq_some_iff.1 head
  have path : userPath <+: userPath ++ other.toList ++ (gap ++ '=' :: (space ++ '{' :: body)) := by
    rw [List.append_assoc]
    exact List.prefix_append _ _
  have headAtPath := head
  rw [shape, userHead?_indented areSpaces] at headAtPath
  cases closed : splitBlock 0 false false body with
  | none => rfl
  | some pair =>
    obtain ⟨inner, after⟩ := pair
    -- A closed block that begins here may only begin where the stretch itself does, or behind it.
    obtain ⟨-, inside⟩ := spares start indentation _ body inner after
      (by rw [List.nil_append, whole, List.append_assoc, shape]) begins areSpaces path headAtPath closed
    rw [List.length_nil, List.nil_append] at inside
    exfalso
    rcases Nat.eq_zero_or_pos (start ++ indentation).length with atStart | further
    · -- Where the block itself begins, the name is another one.
      obtain ⟨rfl, rfl⟩ := List.append_eq_nil_iff.1 (List.length_eq_zero_iff.1 atStart)
      rw [List.nil_append] at whole
      rw [← whole, isBlock.userHead?_eq_none named different] at head
      contradiction
    · -- Further on, only spaces would be left of the block, which a semicolon ends.
      have bounded := inside further
      have within : rest <+: indentation := by
        have begins : rest <+: rest ++ behind := List.prefix_append _ _
        rw [shape] at begins
        refine List.prefix_of_prefix_length_le begins (List.prefix_append _ _) ?_
        rw [whole, List.length_append, List.length_append] at bounded
        omega
      obtain ⟨front, shape⟩ := isBlock.shape
      have last : rest.getLast? = some ';' := by
        have ending : (start ++ rest).getLast? = some ';' := by
          rw [← whole, shape, ← List.cons_append, List.getLast?_concat]
        rwa [List.getLast?_append_of_ne_nil _ nonempty] at ending
      exact absurd (areSpaces ';' (within.subset (List.mem_of_getLast? last))) (by decide)

/-- A closed block that begins before a stretch that is spared ends before it. -/
theorem Spares.exists_of_closed {username : String} {ahead stretch behind body inner after : List Char}
    (spares : Spares username true ahead stretch behind)
    (notSpaces : ¬ ∀ c ∈ ahead, Text.isSpace c = true)
    (head : userHead? username (ahead ++ (stretch ++ behind)) = some body)
    (closed : splitBlock 0 false false body = some (inner, after)) :
    ∃ left, after = left ++ (stretch ++ behind) := by
  obtain ⟨indentation, gap, space, areSpaces, -, -, shape⟩ := userHead?_eq_some_iff.1 head
  have path : userPath <+: userPath ++ username.toList ++ (gap ++ '=' :: (space ++ '{' :: body)) := by
    rw [List.append_assoc]
    exact List.prefix_append _ _
  have headAtPath := head
  rw [shape, userHead?_indented areSpaces] at headAtPath
  obtain ⟨before, -⟩ := spares [] indentation _ body inner after shape rfl areSpaces path headAtPath closed
  -- The path stands before the stretch, since not all of what is before it are spaces.
  have further : ([] ++ indentation).length < ahead.length := by
    refine Nat.lt_of_not_le fun covered => notSpaces fun c within => areSpaces c ?_
    have begins : ahead <+: ahead ++ (stretch ++ behind) := List.prefix_append _ _
    rw [shape] at begins
    have inSpaces := List.prefix_of_prefix_length_le begins (List.prefix_append _ _) covered
    exact inSpaces.subset within
  have bounded := Nat.le_trans (before further) (afterBlock_suffix after).length_le
  -- Both are endings of the text, and the longer one ends with the other.
  have ending : after <:+ ahead ++ (stretch ++ behind) := by
    rw [shape, (splitBlock_eq_some_iff.1 closed).1]
    exact ⟨indentation ++ (userPath ++ username.toList ++ (gap ++ '=' :: (space ++
      '{' :: (inner ++ ['}'])))), by simp⟩
  obtain ⟨left, same⟩ := List.suffix_of_suffix_length_le (List.suffix_append _ _) ending bounded
  exact ⟨left, same.symm⟩

/-- The removal of another user's blocks leaves a block that is spared between what it leaves around it. -/
theorem exists_removeUserFrom_spared {username other : String} {lineStart : Bool}
    {ahead block behind : List Char} (isBlock : IsUserBlock username block)
    (named : ∀ c ∈ other.toList, Text.isNameChar c = true) (different : other ≠ username)
    (spares : Spares other lineStart ahead block behind) :
    ∃ rest, removeUserFrom other 0 lineStart (ahead ++ (block ++ behind)) =
      removeUserFrom other 0 lineStart ahead ++ (block ++ rest) := by
  -- Every step leaves less before the block, by one character or by a whole block of the other user.
  induction size : ahead.length using Nat.strongRecOn generalizing ahead lineStart with
  | ind size ih =>
    subst size
    cases ahead with
    | nil =>
      exact exists_removeUserFrom_append (hasNoOwnBlock_of_spares isBlock named different spares)
    | cons c ahead =>
      by_cases noHead : lineStart = true →
          userHead? other (c :: (ahead ++ (block ++ behind))) = none
      · obtain ⟨rest, kept⟩ := ih ahead.length (by simp) spares.of_cons rfl
        have noHeadAhead : lineStart = true → userHead? other (c :: ahead) = none :=
          fun isStart => userHead?_eq_none_of_append (noHead isStart)
        refine ⟨rest, ?_⟩
        rw [List.cons_append, removeUserFrom_of_noHead noHead, kept,
          removeUserFrom_of_noHead noHeadAhead, List.cons_append]
      · obtain ⟨rfl, isHead⟩ := Classical.not_imp.1 noHead
        obtain ⟨body, head⟩ := Option.ne_none_iff_exists'.1 isHead
        rw [← List.cons_append] at head
        -- The head is not the one of the block itself, so its brace stands before that.
        have notSpaces : ¬ ∀ d ∈ c :: ahead, Text.isSpace d = true := by
          intro areSpaces
          rw [userHead?_indented areSpaces, isBlock.userHead?_eq_none named different] at head
          contradiction
        have path : userPath <+: block ++ behind := isBlock.begins.trans (List.prefix_append _ _)
        obtain ⟨inner, rfl⟩ := (userHead?_before_path named path head).resolve_left notSpaces
        have headAhead := userHead?_append_iff.1 head
        cases closed : splitBlock 0 false false (inner ++ (block ++ behind)) with
        | none =>
          refine ⟨behind, ?_⟩
          rw [removeUserFrom_of_unclosed head closed,
            removeUserFrom_of_unclosed headAhead (splitBlock_eq_none_of_append closed)]
        | some pair =>
          obtain ⟨within, after⟩ := pair
          obtain ⟨left, rfl⟩ := spares.exists_of_closed notSpaces head closed
          have closedAhead := splitBlock_append_iff.1 closed
          obtain ⟨taken, nonempty, whole⟩ := exists_block headAhead closedAhead
          -- The block of the other user ends before the block that is spared.
          have ending := isBlock.afterBlock_append left behind
          have positive := List.length_pos_iff.2 nonempty
          have shorter : (afterBlock left).length < (c :: ahead).length := by
            rw [whole, List.length_append]
            omega
          have sparesLater := spares
          rw [whole] at sparesLater
          obtain ⟨rest, kept⟩ := ih _ shorter sparesLater.of_append rfl
          refine ⟨rest, ?_⟩
          rw [whole] at head headAhead ⊢
          rw [List.append_assoc] at head ⊢
          rw [removeUserFrom_of_closed head closed ending nonempty, kept,
            removeUserFrom_of_closed headAhead closedAhead rfl nonempty]

/-- A block outside those of several other users stays when they are removed. -/
theorem exists_withoutUsers_spared {username : String} {usernames : List String}
    {ahead block behind : List Char} (isBlock : IsUserBlock username block)
    (others : ∀ other ∈ usernames, (∀ c ∈ other.toList, Text.isNameChar c = true) ∧ other ≠ username)
    (outside : IsOutside usernames ahead block behind) :
    ∃ front back, withoutUsers usernames (ahead ++ block ++ behind) = front ++ block ++ back := by
  induction usernames generalizing ahead behind with
  | nil => exact ⟨ahead, behind, rfl⟩
  | cons other later ih =>
    obtain ⟨⟨named, different⟩, othersLater⟩ := List.forall_mem_cons.1 others
    obtain ⟨clear, outsideLater⟩ := outside
    -- The others are removed one by one, each from a text that still has the block.
    obtain ⟨rest, kept⟩ := exists_removeUserFrom_spared isBlock named different clear.spares
    rw [← List.append_assoc, ← List.append_assoc] at kept
    rw [withoutUsers_cons, removeUserBlock, kept]
    exact ih othersLater (outsideLater rest kept)

/-- Blank lines are joined around a block and inside of it, but not across its ends. -/
theorem IsUserBlock.collapseBlankLines_append {username : String} {block : List Char}
    (isBlock : IsUserBlock username block) (front back : List Char) :
    collapseBlankLines (front ++ block ++ back) =
      collapseBlankLines front ++ collapseBlankLines block ++ collapseBlankLines back := by
  -- A block begins and ends with a visible character, so no run crosses its ends.
  obtain ⟨inner, shape⟩ := isBlock.shape
  have begins : ∀ c ∈ block.head?, Text.isBlank c = false := by
    rw [shape]
    rintro c ⟨⟩
    rfl
  have ends : ∀ c ∈ (front ++ block).getLast?, Text.isBlank c = false := by
    have last : (front ++ block).getLast? = some ';' := by
      rw [shape, ← List.cons_append, ← List.append_assoc, List.getLast?_concat]
    exact Text.forall_getLast?_of_eq last rfl
  rw [Managed.collapseBlankLines_append (areBroken_of_getLast? back ends),
    Managed.collapseBlankLines_append (areBroken_of_head? front begins)]

/-- A merge keeps a block of a user that the generated text does not define. -/
theorem exists_merge_spared {existing generated ahead block behind : List Char} {current fresh : Region}
    {username : String} (present : locate existing = some current)
    (made : locate generated = some fresh) (whole : current.before = ahead ++ block ++ behind)
    (isBlock : IsUserBlock username block) (notDefined : username ∉ definedUsers fresh.managed)
    (outside : IsOutside (definedUsers fresh.managed) ahead block behind) :
    ∃ front back, locate (merge existing generated) =
      some ⟨front ++ collapseBlankLines block ++ back, fresh.body, current.after⟩ := by
  have others : ∀ other ∈ definedUsers fresh.managed,
      (∀ c ∈ other.toList, Text.isNameChar c = true) ∧ other ≠ username := by
    intro other among
    refine ⟨isNameChar_of_mem_mentions (mem_firsts.1 among), ?_⟩
    rintro rfl
    exact notDefined among
  -- The names that are removed are those the region defines, and his is not one of them.
  obtain ⟨front, back, kept⟩ := exists_withoutUsers_spared isBlock others outside
  refine ⟨collapseBlankLines front, collapseBlankLines back, ?_⟩
  rw [locate_merge present made, scrub_eq, whole, kept, isBlock.collapseBlankLines_append]

end NixKeeper.Managed
