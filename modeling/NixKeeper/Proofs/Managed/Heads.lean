import NixKeeper.Proofs.Managed.Bytes

/-!
The heads of a user's definitions in a text.

The search for them by byte offsets finds the first one that begins a line, from any place on.
-/

namespace NixKeeper.Managed

/-- The head of a definition of a user, from its indentation to the brace that opens the block. -/
def IsOpening (username : String) (opening : List Char) : Prop :=
  -- Spaces stand in front of the path, and blanks around the equals sign.
  ∃ indentation gap space, (∀ c ∈ indentation, Text.isSpace c = true) ∧
    (∀ c ∈ gap, Text.isBlank c = true) ∧ (∀ c ∈ space, Text.isBlank c = true) ∧
    opening = indentation ++ (userPath ++ username.toList ++ (gap ++ '=' :: (space ++ ['{'])))

/-- The head of a definition of a user begins a line of a text, behind a front. -/
structure IsHeadAt (username : String) (text front opening : List Char) : Prop where
  opens : IsOpening username opening
  begins : beginsLine true front = true
  within : front ++ opening <+: text

variable {username : String} {front stretch behind body : List Char}

section Heads

variable {opening text : List Char}

/-- The head of a definition is recognised exactly where its opening stands. -/
theorem userHead?_eq_some_iff_opening :
    userHead? username text = some body ↔
      ∃ opening, IsOpening username opening ∧ text = opening ++ body := by
  rw [userHead?_eq_some_iff]
  -- The pieces are the same, put together with the body or without it.
  constructor
  · rintro ⟨indentation, gap, space, areSpaces, areGap, areSpace, rfl⟩
    exact ⟨_, ⟨indentation, gap, space, areSpaces, areGap, areSpace, rfl⟩, by simp⟩
  · rintro ⟨_, ⟨indentation, gap, space, areSpaces, areGap, areSpace, rfl⟩, rfl⟩
    exact ⟨indentation, gap, space, areSpaces, areGap, areSpace, by simp⟩

/-- Behind an opening no backslash protects a quote. -/
theorem IsOpening.endsEscaped (opens : IsOpening username opening) (front : List Char) :
    endsEscaped false (front ++ opening) = false := by
  obtain ⟨indentation, gap, space, -, -, -, rfl⟩ := opens
  -- The last character of an opening is its brace.
  have shape : front ++ (indentation ++ (userPath ++ username.toList ++ (gap ++ '=' :: (space ++ ['{'])))) =
      (front ++ indentation ++ userPath ++ username.toList ++ gap ++ '=' :: space) ++ '{' :: [] := by
    simp
  rw [shape, endsEscaped_append_cons]
  rfl

/-- The block behind an opening is the one that begins there. -/
theorem IsOpening.extractBlock_eq (opens : IsOpening username opening) (front body : List Char) :
    extractBlock (front ++ (opening ++ body)) (byteLength (front ++ opening)) =
      (splitBlock 0 false false body).map Prod.fst := by
  -- The opening ends with the brace, so no backslash stands in front of the body.
  rw [← List.append_assoc, extractBlock_append, opens.endsEscaped]

/-- An opening is not empty. -/
theorem IsOpening.length_pos (opens : IsOpening username opening) : 0 < opening.length := by
  obtain ⟨indentation, gap, space, -, -, -, rfl⟩ := opens
  -- The brace at the end is one character.
  simp only [List.length_append, List.length_cons]
  omega

namespace IsHeadAt

/-- A head is recognised in the text from its first character on. -/
theorem exists_body (isHead : IsHeadAt username text front opening) :
    ∃ body, text = front ++ (opening ++ body) ∧ userHead? username (opening ++ body) = some body := by
  obtain ⟨body, rfl⟩ := isHead.within
  -- The text begins with an opening where the head is.
  exact ⟨body, List.append_assoc .., userHead?_eq_some_iff_opening.2 ⟨opening, isHead.opens, rfl⟩⟩

/-- There is one opening at most at a place. -/
theorem opening_eq {other : List Char} (isHead : IsHeadAt username text front opening)
    (isOther : IsHeadAt username text front other) : opening = other := by
  -- Both lead to the body that the recognition of the head gives.
  obtain ⟨body, rfl, head⟩ := isHead.exists_body
  obtain ⟨otherBody, same, otherHead⟩ := isOther.exists_body
  rw [List.append_right_inj] at same
  rw [← same] at otherHead
  obtain rfl := Option.some.inj (head.symm.trans otherHead)
  exact List.append_cancel_right same

end IsHeadAt

end Heads

/-- No definition of a user begins a line of a stretch between two others. -/
def IsFree (username : String) (front stretch behind : List Char) : Prop :=
  -- Only places inside the stretch are asked about, and not its end.
  ∀ passed rest, stretch = passed ++ rest → rest ≠ [] → beginsLine true (front ++ passed) = true →
    userHead? username (rest ++ behind) = none

/-- Nothing begins where there is nothing. -/
theorem IsFree.nil : IsFree username front [] behind := by
  -- No offset lies in an empty stretch.
  intro passed rest whole nonempty
  exact absurd (List.append_eq_nil_iff.1 whole.symm).2 nonempty

/-- A head in a text begins behind a free stretch. -/
theorem IsFree.prefix_of_isHeadAt {passed opening : List Char} (free : IsFree username front stretch behind)
    (isHead : IsHeadAt username (front ++ (stretch ++ behind)) (front ++ passed) opening) :
    stretch <+: passed := by
  obtain ⟨body, whole, head⟩ := isHead.exists_body
  rw [List.append_assoc, List.append_right_inj] at whole
  -- The place of the head is behind the stretch or inside of it.
  rcases List.append_eq_append_iff.1 whole with ⟨more, rfl, -⟩ | ⟨rest, rfl, later⟩
  · exact List.prefix_append _ _
  · -- What the stretch has behind the place of the head is empty, as no definition begins there.
    by_cases empty : rest = []
    · simp [empty]
    · have noHead := free passed rest rfl empty isHead.begins
      rw [← later, head] at noHead
      cases noHead

/-- A stretch is free if its first character begins no definition and the others are free. -/
theorem IsFree.cons {c : Char}
    (noHead : beginsLine true front = true → userHead? username (c :: (stretch ++ behind)) = none)
    (free : IsFree username (front ++ [c]) stretch behind) : IsFree username front (c :: stretch) behind := by
  intro passed rest whole nonempty begins
  -- A place in the longer stretch is its first character or a place in the shorter one.
  cases passed with
  | nil =>
    rw [List.nil_append] at whole
    rw [List.append_nil] at begins
    rw [← whole]
    exact noHead begins
  | cons d passed =>
    obtain ⟨rfl, later⟩ := List.cons.inj whole
    exact free passed rest later nonempty (by rwa [List.append_assoc])

/-- Whether a line begins behind two stretches is decided in the second one, unless that is empty. -/
theorem beginsLine_append (lineStart : Bool) (first second : List Char) :
    beginsLine lineStart (first ++ second) = beginsLine (beginsLine lineStart first) second := by
  induction first generalizing lineStart with
  | nil => rfl
  -- Only the last character decides, and it is that of the second part if there is one.
  | cons c first ih => rw [List.cons_append, beginsLine_cons, beginsLine_cons, ih]

namespace Bytes

/-- Blanks and a character that is none are matched where the character is found behind them. -/
theorem matchParts?_afterBlanks {expected : Char} (shown : Text.isBlank expected = false)
    (parts : List Text.Part) (text : List Char) :
    Text.matchParts? (.many Text.isBlank :: .one (· == expected) :: parts) text =
      (afterBlanks? expected text).bind (Text.matchParts? parts) := by
  -- The expected character is no blank, so giving back a blank never helps the match.
  have stops : ∀ c rest, Text.isBlank c = true →
      Text.matchParts? (.one (· == expected) :: parts) (c :: rest) = none := by
    intro c rest blank
    exact if_neg (by simpa using Text.ne_of_class blank shown)
  have taken : Text.matchParts? (.many Text.isBlank :: .one (· == expected) :: parts) text =
      Text.matchParts? (.one (· == expected) :: parts) (Text.trimStart text) :=
    Text.matchMany?_eq stops text
  rw [taken, afterBlanks?]
  cases Text.trimStart text with
  | nil => rfl
  | cons c rest =>
    have first : Text.matchParts? (.one (· == expected) :: parts) (c :: rest) =
        if c == expected then Text.matchParts? parts rest else none := rfl
    rw [first, List.isPrefixOf?]
    by_cases same : c = expected
    · simp [same, List.isPrefixOf?]
    · simp [same, Ne.symm same]

/-- The pattern for the head of a definition matches where one is recognised, up to the same place. -/
theorem matchParts?_headPattern (username : String) (text : List Char) :
    Text.matchParts? (headPattern username) text = userHead? username text := by
  have letters : userPath = 'u' :: userPath.tail := by decide
  -- The greedy parts never have to give back what they took, since what follows is of another class.
  have stops : ∀ c rest, Text.isSpace c = true →
      Text.matchParts? ((userPath ++ username.toList).map (fun letter => .one (· == letter)) ++
        [.many Text.isBlank, .one (· == '='), .many Text.isBlank, .one (· == '{')]) (c :: rest) = none := by
    intro c rest space
    rw [letters, List.cons_append]
    exact Text.matchParts?_word_of_ne (Text.ne_of_class space (by decide)) _ _ rest
  have taken : Text.matchParts? (headPattern username) text =
      Text.matchParts? ((userPath ++ username.toList).map (fun letter => .one (· == letter)) ++
        [.many Text.isBlank, .one (· == '='), .many Text.isBlank, .one (· == '{')])
        (text.dropWhile Text.isSpace) :=
    Text.matchMany?_eq stops text
  rw [taken, Text.matchParts?_word, userHead?]
  refine congrArg _ (funext fun rest => ?_)
  rw [matchParts?_afterBlanks rfl]
  refine congrArg _ (funext fun rest => ?_)
  rw [matchParts?_afterBlanks rfl]
  exact Option.bind_fun_some _

section Search

variable {parts : List Text.Part} {cursor offset : Nat} {lineStart : Bool}

/-- A stretch in which nothing matches from the cursor on is passed. -/
theorem findFrom_append {passed rest : List Char}
    (free : ∀ start later, passed = start ++ later → later ≠ [] → cursor ≤ offset + byteLength start →
      beginsLine lineStart start = true → Text.matchParts? parts (later ++ rest) = none) :
    findFrom parts cursor offset lineStart (passed ++ rest) =
      findFrom parts cursor (offset + byteLength passed) (beginsLine lineStart passed) rest := by
  induction passed generalizing offset lineStart with
  | nil => rfl
  | cons c passed ih =>
    -- Behind the first character the same condition holds, for an offset that is larger by its bytes.
    have later : findFrom parts cursor (offset + c.utf8Size) (c == '\n') (passed ++ rest) =
        findFrom parts cursor (offset + byteLength (c :: passed))
          (beginsLine lineStart (c :: passed)) rest := by
      rw [beginsLine_cons, byteLength, ← Nat.add_assoc]
      refine ih fun start behind split nonempty reached begins => ?_
      refine free (c :: start) behind (by rw [split, List.cons_append]) nonempty ?_ ?_
      · rwa [byteLength, ← Nat.add_assoc]
      · rwa [beginsLine_cons]
    rw [List.cons_append, findFrom, later]
    split
    · rename_i reached
      have noMatch : (if lineStart then Text.matchParts? parts (c :: (passed ++ rest)) else none) = none := by
        cases lineStart with
        | false => rfl
        | true => exact free [] (c :: passed) rfl (List.cons_ne_nil _ _) reached rfl
      rw [noMatch]
    · rfl

/-- A match that begins a line at the cursor or behind it is found. -/
theorem exists_findFrom {stretch after : List Char} (nonempty : stretch ≠ []) (reached : cursor ≤ offset)
    (isMatch : Text.matchParts? parts (stretch ++ after) = some after) :
    ∃ found, findFrom parts cursor offset true (stretch ++ after) = some found ∧
      found.start = offset ∧ found.stop = offset + byteLength stretch := by
  -- The match is found at once, and its end is counted back from the end of the text.
  obtain ⟨c, rest, rfl⟩ := List.exists_cons_of_ne_nil nonempty
  rw [List.cons_append] at isMatch ⊢
  have size : (Text.encode (c :: (rest ++ after))).length - (Text.encode after).length =
      byteLength (c :: rest) := by
    rw [← List.cons_append, length_encode, length_encode, byteLength_append, Nat.add_sub_cancel]
  rw [findFrom, dif_pos reached, if_pos rfl, isMatch]
  exact ⟨_, rfl, rfl, by rw [size]⟩

/-- The search from a front on passes a stretch in which no definition begins a line. -/
theorem findFrom_of_isFree (free : IsFree username front stretch behind) :
    findFrom (headPattern username) (byteLength front) 0 true (front ++ (stretch ++ behind)) =
      findFrom (headPattern username) (byteLength front) (byteLength (front ++ stretch))
        (beginsLine true (front ++ stretch)) behind := by
  -- The search passes the front, as it is before the cursor, and then the stretch.
  rw [← List.append_assoc, findFrom_append, Nat.zero_add]
  intro start later split nonempty reached begins
  rw [matchParts?_headPattern]
  rw [Nat.zero_add] at reached
  rcases List.append_eq_append_iff.1 split with ⟨passed, rfl, within⟩ | ⟨left, front_eq, rfl⟩
  · exact free passed later within nonempty begins
  · -- The cursor is not before the front, so this place is the end of the front.
    have left_eq : left = [] := by
      rw [front_eq, byteLength_append] at reached
      cases left with
      | nil => rfl
      | cons c left =>
        have positive := c.utf8Size_pos
        rw [byteLength] at reached
        omega
    subst left_eq
    rw [List.append_nil] at front_eq
    exact free [] stretch rfl nonempty (by rwa [List.append_nil, front_eq])

end Search

/-- The search from a front on finds the first definition that begins a line. -/
theorem exists_found {opening : List Char} (free : IsFree username front stretch (opening ++ body))
    (begins : beginsLine true (front ++ stretch) = true) (opens : IsOpening username opening) :
    ∃ found, findFrom (headPattern username) (byteLength front) 0 true
        (front ++ (stretch ++ (opening ++ body))) = some found ∧
      found.start = byteLength (front ++ stretch) ∧
      found.stop = byteLength (front ++ stretch ++ opening) := by
  -- Behind the free stretch the pattern matches the opening.
  have head : Text.matchParts? (headPattern username) (opening ++ body) = some body := by
    rw [matchParts?_headPattern]
    exact userHead?_eq_some_iff_opening.2 ⟨opening, opens, rfl⟩
  have reached : byteLength front ≤ byteLength (front ++ stretch) := by
    rw [byteLength_append]
    exact Nat.le_add_right _ _
  rw [findFrom_of_isFree free, begins, byteLength_append (front ++ stretch) opening]
  exact exists_findFrom (List.ne_nil_of_length_pos opens.length_pos) reached head

end Bytes

end NixKeeper.Managed
