import NixKeeper.Proofs.Managed.Heads

/-!
The removal of a user's blocks as a list of cuts.

What is cut out are whole blocks of the user. They are found one behind the other, by the characters as
by the bytes, until no definition is left or one has no end.
-/

namespace NixKeeper.Managed

/-- A stretch of a text that stays, and behind it one that goes. -/
structure Cut where
  kept : List Char
  gone : List Char

/-- Both stretches of a cut. -/
def Cut.whole (cut : Cut) : List Char :=
  cut.kept ++ cut.gone

/-- The end of a line behind a block: spaces, a semicolon, spaces or carriage returns, a line feed. -/
def IsLineEnd (ending : List Char) : Prop :=
  -- The semicolon and the line feed may both be missing.
  ∃ spaces semicolon blanks feed, (∀ c ∈ spaces, Text.isSpace c = true) ∧ semicolon <+: [';'] ∧
    (∀ c ∈ blanks, (Text.isSpace c || c == '\r') = true) ∧ feed <+: ['\n'] ∧
    ending = spaces ++ (semicolon ++ (blanks ++ feed))

/-- A stretch behind a front is a block of a user, from its head to the end of its last line. -/
def IsOwnBlockAt (username : String) (text front stretch : List Char) : Prop :=
  -- The stretch is an opening, the body with its brace, and the end of the line.
  ∃ opening body ending, stretch = opening ++ (body ++ '}' :: ending) ∧
    IsHeadAt username text front opening ∧
    extractBlock text (byteLength (front ++ opening)) = some body ∧ IsLineEnd ending

/-- The characters from one place of a text to another belong to one stretch that goes. -/
def IsGone (cuts : List Cut) (start stop : Nat) : Prop :=
  -- The stretch lies in one of the cuts, behind the part of it that is kept.
  ∃ before cut behind, cuts = before ++ cut :: behind ∧
    (before.flatMap Cut.whole ++ cut.kept).length ≤ start ∧
    stop ≤ (before.flatMap Cut.whole ++ cut.whole).length

/-- What stands behind a front goes, at least with its first character. -/
def Goes (cuts : List Cut) (front : List Char) : Prop :=
  IsGone cuts front.length (front.length + 1)

/-- Cuts, and what follows the last of them, take the blocks of a user out of a text. -/
structure IsRemoval (username : String) (text result : List Char) (cuts : List Cut)
    (last : List Char) : Prop where
  /-- The stretches follow one another through the whole text. -/
  whole : text = cuts.flatMap Cut.whole ++ last
  /-- What does not go stays, in the same order. -/
  kept : result = cuts.flatMap Cut.kept ++ last
  /-- What goes is a block of the user. -/
  own : ∀ before cut behind, cuts = before ++ cut :: behind →
    IsOwnBlockAt username text (before.flatMap Cut.whole ++ cut.kept) cut.gone
  /-- A head that goes does so as a whole, if its name holds no brace that closes a block. -/
  takes : '}' ∉ username.toList → ∀ front opening, IsHeadAt username text front opening →
    Goes cuts front → IsGone cuts front.length (front ++ opening).length
  /-- Nothing goes at a head that stays, or behind it. -/
  spares : ∀ front opening, IsHeadAt username text front opening → ¬ Goes cuts front →
    cuts.flatMap Cut.whole <+: front
  /-- The block of the first head that stays is never closed. -/
  stops : ∀ front opening, IsHeadAt username text front opening → ¬ Goes cuts front →
    (∀ other brace, IsHeadAt username text other brace → ¬ Goes cuts other →
      front.length ≤ other.length) →
    extractBlock text (byteLength (front ++ opening)) = none
  /-- No head stays if the block of each one that does is closed. -/
  clears : (∀ front opening, IsHeadAt username text front opening → ¬ Goes cuts front →
      (extractBlock text (byteLength (front ++ opening))).isSome) →
    ∀ front opening, IsHeadAt username text front opening → Goes cuts front

variable {username : String} {front stretch behind rest body inner after last : List Char}

/--
A text behind a front is read from one block of a user to the next.

The blocks are cut out until no definition is left, or one whose block is never closed stops the reading.
-/
inductive Passes (username : String) : List Char → List Char → List Cut → List Char → Prop where
  /-- No definition is left. -/
  | finish {front rest : List Char} (free : IsFree username front rest []) :
      Passes username front rest [] rest
  /-- A block that is never closed stays with everything behind it. -/
  | stop {front kept rest body : List Char} (free : IsFree username front kept rest)
      (begins : beginsLine true (front ++ kept) = true) (head : userHead? username rest = some body)
      (unclosed : splitBlock 0 false false body = none) :
      Passes username front (kept ++ rest) [] (kept ++ rest)
  /-- A closed block goes with the rest of its line. -/
  | pass {front rest body inner after last : List Char} {cut : Cut} {cuts : List Cut}
      (free : IsFree username front cut.kept (cut.gone ++ rest))
      (begins : beginsLine true (front ++ cut.kept) = true)
      (head : userHead? username (cut.gone ++ rest) = some body)
      (closed : splitBlock 0 false false body = some (inner, after)) (ending : afterBlock after = rest)
      (later : Passes username (front ++ cut.whole) rest cuts last) :
      Passes username front (cut.whole ++ rest) (cut :: cuts) last

/-- A character that begins no definition stays before the first cut. -/
theorem Passes.cons {cuts : List Cut} {c : Char}
    (noHead : beginsLine true front = true → userHead? username (c :: rest) = none)
    (passes : Passes username (front ++ [c]) rest cuts last) :
    ∃ others ending, Passes username front (c :: rest) others ending ∧
      others.flatMap Cut.kept ++ ending = c :: (cuts.flatMap Cut.kept ++ last) := by
  -- The character joins what is kept before the first cut, or what is left if there is none.
  cases passes with
  | finish free => exact ⟨[], c :: rest, .finish (.cons (by simpa using noHead) free), rfl⟩
  | @stop _ kept rest body free begins head unclosed =>
    have passed : Passes username front ((c :: kept) ++ rest) [] ((c :: kept) ++ rest) :=
      .stop (.cons noHead free) (by simpa using begins) head unclosed
    exact ⟨[], _, passed, rfl⟩
  | @pass _ rest body inner after _ cut cuts free begins head closed ending later =>
    have noHeadYet : beginsLine true front = true →
        userHead? username (c :: (cut.kept ++ (cut.gone ++ rest))) = none := by
      rwa [Cut.whole, List.append_assoc] at noHead
    have behindCut : front ++ [c] ++ cut.whole = front ++ Cut.whole ⟨c :: cut.kept, cut.gone⟩ := by
      simp [Cut.whole]
    have passed : Passes username front (Cut.whole ⟨c :: cut.kept, cut.gone⟩ ++ rest)
        (⟨c :: cut.kept, cut.gone⟩ :: cuts) last :=
      .pass (.cons noHeadYet free) (by simpa using begins) head closed ending (behindCut ▸ later)
    exact ⟨_, last, passed, by simp⟩

/-- The removal reads a text from one block of the user to the next. -/
theorem Removal.exists_passes {lineStart : Bool} {text result : List Char}
    (removal : Removal username lineStart text result) (front : List Char)
    (begins : beginsLine true front = lineStart) :
    ∃ cuts last, Passes username front text cuts last ∧ result = cuts.flatMap Cut.kept ++ last := by
  induction removal generalizing front with
  | done => exact ⟨[], [], .finish .nil, rfl⟩
  | @keep lineStart c rest result noHead later ih =>
    obtain ⟨cuts, last, passes, rfl⟩ := ih (front ++ [c]) (by simp [beginsLine])
    obtain ⟨others, ending, longer, same⟩ := passes.cons (begins ▸ noHead)
    exact ⟨others, ending, longer, same.symm⟩
  | @stop text body head unclosed =>
    have begins : beginsLine true (front ++ []) = true := by rwa [List.append_nil]
    exact ⟨[], text, .stop .nil begins head unclosed, rfl⟩
  | @cut block body inner after rest result head closed ending nonempty later ih =>
    obtain ⟨cuts, last, passes, rfl⟩ := ih (front ++ block) (by rw [beginsLine_append, begins])
    -- Nothing stays between this block and the one before it.
    have begins : beginsLine true (front ++ Cut.kept ⟨[], block⟩) = true := by
      rwa [List.append_nil]
    exact ⟨⟨[], block⟩ :: cuts, last, .pass .nil begins head closed ending passes, rfl⟩

/-- What is passed behind a block is the end of its line, and the bytes of it are passed as well. -/
theorem Bytes.exists_lineEnd (front rest : List Char) :
    ∃ ending, rest = ending ++ afterBlock rest ∧ IsLineEnd ending ∧
      Bytes.lineEnd (Text.encode (front ++ rest)) (byteLength front) = byteLength (front ++ ending) := by
  rw [afterBlock, Bytes.lineEnd]
  -- Each of the four steps splits what the one before has left.
  obtain ⟨spaces, areSpaces, split, passed⟩ := Bytes.exists_skipBytes Bytes.isSpace_eq front rest
  rw [passed]
  generalize rest.dropWhile Text.isSpace = atSemicolon at split
  subst split
  obtain ⟨semicolon, isSemicolon, split, passed⟩ :=
    Bytes.exists_skipByte (by decide : (';' : Char).toNat < 128) (front ++ spaces) atSemicolon
  simp only [List.append_assoc] at passed
  rw [passed]
  generalize skipChar ';' atSemicolon = atBlanks at split
  subst split
  obtain ⟨blanks, areBlanks, split, passed⟩ :=
    Bytes.exists_skipBytes Bytes.isSpace_or_return_eq (front ++ (spaces ++ semicolon)) atBlanks
  simp only [List.append_assoc] at passed
  rw [passed]
  generalize atBlanks.dropWhile (fun c => Text.isSpace c || c == '\r') = atFeed at split
  subst split
  obtain ⟨feed, isFeed, split, passed⟩ :=
    Bytes.exists_skipByte (by decide : ('\n' : Char).toNat < 128)
      (front ++ (spaces ++ (semicolon ++ blanks))) atFeed
  simp only [List.append_assoc] at passed
  rw [passed]
  refine ⟨spaces ++ (semicolon ++ (blanks ++ feed)), ?_,
    ⟨spaces, semicolon, blanks, feed, areSpaces, isSemicolon, areBlanks, isFeed, rfl⟩, rfl⟩
  simp only [List.append_assoc]
  rw [← split]

/-- What goes at a closed block is a block of the user, and the bytes end where it ends. -/
theorem exists_ownBlock {gone : List Char} (begins : beginsLine true front = true)
    (head : userHead? username (gone ++ rest) = some body)
    (closed : splitBlock 0 false false body = some (inner, after)) (ending : afterBlock after = rest) :
    ∃ opening, IsOpening username opening ∧ gone ++ rest = opening ++ body ∧
      IsOwnBlockAt username (front ++ (gone ++ rest)) front gone ∧
      Bytes.lineEnd (Text.encode (front ++ (gone ++ rest)))
          (byteLength (front ++ opening) + byteLength inner + 1) = byteLength (front ++ gone) := by
  obtain ⟨opening, opens, whole⟩ := userHead?_eq_some_iff_opening.1 head
  obtain ⟨rfl, -⟩ := splitBlock_eq_some_iff.1 closed
  obtain ⟨lineEnd, split, isLineEnd, passed⟩ :=
    Bytes.exists_lineEnd (front ++ (opening ++ (inner ++ ['}']))) after
  rw [ending] at split
  -- What goes is the opening, the body with its brace, and the end of the line.
  have gone_eq : gone = opening ++ (inner ++ '}' :: lineEnd) := by
    rw [← List.append_left_inj rest, whole, split]
    simp
  refine ⟨opening, opens, whole, ⟨opening, inner, lineEnd, gone_eq, ⟨opens, begins, ?_⟩, ?_, isLineEnd⟩, ?_⟩
  · rw [whole, ← List.append_assoc]
    exact List.prefix_append _ _
  · rw [whole, opens.extractBlock_eq, closed]
    rfl
  · have place : byteLength (front ++ opening) + byteLength inner + 1 =
        byteLength (front ++ (opening ++ (inner ++ ['}']))) := by
      simp only [byteLength_append]
      have brace : byteLength ['}'] = 1 := rfl
      omega
    rw [whole, place, gone_eq]
    simpa using passed

namespace Passes

variable {cuts : List Cut}

/-- The cuts and what follows them are the text that was read. -/
theorem whole_eq (passes : Passes username front rest cuts last) :
    rest = cuts.flatMap Cut.whole ++ last := by
  -- Every cut is passed whole.
  induction passes with
  | finish | stop => rfl
  | pass _ _ _ _ _ _ ih => rw [List.flatMap_cons, List.append_assoc, ← ih]

/-- Each cut takes a block of the user. -/
theorem isOwnBlockAt (passes : Passes username front rest cuts last) {before behind : List Cut}
    {cut : Cut} (place : cuts = before ++ cut :: behind) :
    IsOwnBlockAt username (front ++ rest) (front ++ (before.flatMap Cut.whole ++ cut.kept)) cut.gone := by
  induction passes generalizing before with
  | finish | stop => simp at place
  | @pass front rest body inner after last first cuts free begins head closed ending later ih =>
    -- The first cut is taken where it is read, and the later ones behind it.
    cases before with
    | nil =>
      obtain ⟨rfl, rfl⟩ := List.cons.inj place
      obtain ⟨opening, -, -, own, -⟩ := exists_ownBlock begins head closed ending
      simpa [Cut.whole] using own
    | cons other before =>
      obtain ⟨rfl, behindFirst⟩ := List.cons.inj place
      simpa using ih behindFirst

end Passes

/-- A stretch that goes from the first cut. -/
theorem isGone_cons_of_le {cut : Cut} {cuts : List Cut} {start stop : Nat}
    (behindKept : cut.kept.length ≤ start) (upTo : stop ≤ cut.whole.length) :
    IsGone (cut :: cuts) start stop :=
  -- The first of the cuts is the one it lies in.
  ⟨[], cut, cuts, rfl, behindKept, upTo⟩

/-- A stretch that goes from a later cut. -/
theorem IsGone.cons {cuts : List Cut} {start stop : Nat} (gone : IsGone cuts start stop) (cut : Cut) :
    IsGone (cut :: cuts) (cut.whole.length + start) (cut.whole.length + stop) := by
  obtain ⟨before, other, behind, rfl, behindKept, upTo⟩ := gone
  -- The places move by the length of the cut before them.
  refine ⟨cut :: before, other, behind, rfl, ?_, ?_⟩
  · simp only [List.flatMap_cons, List.length_append] at behindKept ⊢
    omega
  · simp only [List.flatMap_cons, List.length_append] at upTo ⊢
    omega

/-- Behind the last cut nothing goes. -/
theorem not_goes_of_prefix {cuts : List Cut} (behindCuts : cuts.flatMap Cut.whole <+: front) :
    ¬ Goes cuts front := by
  rintro ⟨before, cut, behind, rfl, -, upTo⟩
  have bounded := behindCuts.length_le
  -- The cut would have to reach beyond the text in front.
  simp only [List.flatMap_append, List.flatMap_cons, List.length_append] at bounded upTo
  omega

/--
Each head of the text goes, or the reading has come to a halt at a head whose block is never closed.

All the cuts lie before that head.
-/
theorem Passes.exists_halt {cuts : List Cut} (passes : Passes username front rest cuts last) :
    ∃ halt, cuts.flatMap Cut.whole <+: halt ∧
      ∀ passed opening, IsHeadAt username (front ++ rest) (front ++ passed) opening →
        Goes cuts passed ∨ halt <+: passed ∧
          ∃ brace, IsHeadAt username (front ++ rest) (front ++ halt) brace ∧
            extractBlock (front ++ rest) (byteLength (front ++ halt ++ brace)) = none := by
  -- A cut moves the halt, and leaves the heads behind it as they are.
  induction passes with
  | @finish front rest free =>
    refine ⟨[], List.prefix_refl _, fun passed opening isHead => ?_⟩
    -- A head would begin before the end of the text, where none does.
    have behindFree : rest <+: passed := free.prefix_of_isHeadAt (by rwa [List.append_nil])
    have within := isHead.within.length_le
    have positive := isHead.opens.length_pos
    have bounded := behindFree.length_le
    simp only [List.length_append] at within
    omega
  | @stop front kept rest body free begins head unclosed =>
    -- The halt is the unclosed head, and any other head begins at it or behind it.
    refine ⟨kept, List.nil_prefix, fun passed opening isHead => .inr ⟨free.prefix_of_isHeadAt isHead, ?_⟩⟩
    obtain ⟨brace, opens, rfl⟩ := userHead?_eq_some_iff_opening.1 head
    refine ⟨brace, ⟨opens, begins, ?_⟩, ?_⟩
    · rw [← List.append_assoc, ← List.append_assoc]
      exact List.prefix_append _ _
    · rw [← List.append_assoc, opens.extractBlock_eq, unclosed]
      rfl
  | @pass front rest body inner after last cut cuts free begins head closed ending later ih =>
    obtain ⟨halt, behindCuts, settled⟩ := ih
    refine ⟨cut.whole ++ halt, (List.prefix_append_right_inj _).2 behindCuts,
      fun passed opening isHead => ?_⟩
    have behindKept : cut.kept <+: passed :=
      free.prefix_of_isHeadAt (by rwa [Cut.whole, List.append_assoc] at isHead)
    by_cases inside : passed.length < cut.whole.length
    · exact .inl (isGone_cons_of_le behindKept.length_le inside)
    · -- The head lies behind this cut, where the reading goes on.
      obtain ⟨ending, within⟩ := isHead.within
      rw [List.append_assoc, List.append_assoc, List.append_right_inj] at within
      obtain ⟨more, rfl⟩ : cut.whole <+: passed :=
        List.prefix_of_prefix_length_le ⟨rest, rfl⟩ ⟨_, within⟩ (Nat.not_lt.1 inside)
      rw [← List.append_assoc, ← List.append_assoc] at isHead
      rw [Goes, List.length_append, List.prefix_append_right_inj, ← List.append_assoc,
        ← List.append_assoc]
      exact (settled more opening isHead).imp_left fun goes => goes.cons cut

/-- An opening holds no closing brace if the name does not. -/
theorem IsOpening.brace_not_mem {opening : List Char} (opens : IsOpening username opening)
    (closesNone : '}' ∉ username.toList) : '}' ∉ opening := by
  obtain ⟨indentation, gap, space, areSpaces, areGap, areSpace, rfl⟩ := opens
  -- Besides the name, an opening has spaces, a path and an opening brace.
  have inIndentation : '}' ∉ indentation := Text.not_mem_of_class areSpaces (by decide)
  have inGap : '}' ∉ gap := Text.not_mem_of_class areGap (by decide)
  have inSpace : '}' ∉ space := Text.not_mem_of_class areSpace (by decide)
  have inPath : '}' ∉ userPath := by decide
  simp [inIndentation, inGap, inSpace, inPath, closesNone]

/-- In the end of a line a line feed can only be the last character. -/
theorem IsLineEnd.lineFeed_not_mem {passed more : List Char} (isLineEnd : IsLineEnd (passed ++ more))
    (nonempty : more ≠ []) : '\n' ∉ passed := by
  obtain ⟨spaces, semicolon, blanks, feed, areSpaces, isSemicolon, areBlanks, isFeed, whole⟩ := isLineEnd
  have free : '\n' ∉ spaces ++ (semicolon ++ blanks) := by
    have inSpaces : '\n' ∉ spaces := Text.not_mem_of_class areSpaces (by decide)
    have inBlanks : '\n' ∉ blanks :=
      Text.not_mem_of_class (p := fun c => Text.isSpace c || c == '\r') areBlanks (by decide)
    have inSemicolon : '\n' ∉ semicolon := fun within => absurd (isSemicolon.subset within) (by decide)
    simp [inSpaces, inBlanks, inSemicolon]
  -- At most one character is left behind the others.
  have bounded := isFeed.length_le
  have positive := List.length_pos_iff.2 nonempty
  have lengths := congrArg List.length whole
  have begins : passed <+: spaces ++ (semicolon ++ blanks) := by
    refine List.prefix_of_prefix_length_le ⟨more, whole⟩ ⟨feed, by simp⟩ ?_
    simp only [List.length_append, List.length_singleton] at bounded lengths ⊢
    omega
  exact fun within => free (begins.subset within)

/-- No line begins inside of the end of another one. -/
theorem IsLineEnd.beginsLine_eq_false {passed more : List Char} (isLineEnd : IsLineEnd (passed ++ more))
    (nonempty : more ≠ []) (front : List Char) : beginsLine true (front ++ '}' :: passed) = false := by
  rw [beginsLine_append, beginsLine_cons]
  rcases List.eq_nil_or_concat passed with rfl | ⟨before, c, rfl⟩
  · rfl
  · -- Only the last character of the end of a line can be a line feed.
    have other : '\n' ≠ c := by
      rintro rfl
      exact isLineEnd.lineFeed_not_mem nonempty (by simp)
    simpa [beginsLine] using other.symm

/-- A head that begins before the end of a block of its user ends there, if its name closes no block. -/
theorem IsHeadAt.length_le {opening text ahead stretch : List Char}
    (isHead : IsHeadAt username text front opening) (closesNone : '}' ∉ username.toList)
    (own : IsOwnBlockAt username text ahead stretch) (within : ahead ++ stretch <+: text)
    (inside : front.length < (ahead ++ stretch).length) :
    (front ++ opening).length ≤ (ahead ++ stretch).length := by
  obtain ⟨first, inner, ending, rfl, -, -, isLineEnd⟩ := own
  obtain ⟨body, whole, -⟩ := isHead.exists_body
  obtain ⟨rest, rfl⟩ := within
  have free := isHead.opens.brace_not_mem closesNone
  have atBrace : (ahead ++ (first ++ inner)) ++ '}' :: (ending ++ rest) = front ++ (opening ++ body) := by
    rw [← whole]
    simp
  have size : (ahead ++ (first ++ (inner ++ '}' :: ending))).length =
      (ahead ++ (first ++ inner)).length + (ending.length + 1) := by
    simp only [List.length_append, List.length_cons]
    omega
  rw [size] at inside ⊢
  -- The head begins before the brace that closes the block, or behind it.
  rcases List.append_eq_append_iff.1 atBrace with ⟨passed, rfl, behind⟩ | ⟨left, shape, behind⟩
  · cases passed with
    | nil =>
      have none : opening = [] := List.prefix_nil.1 (Text.prefix_of_not_mem free behind)
      have positive := isHead.opens.length_pos
      simp [none] at positive
    | cons d passed =>
      -- The line that begins there would do so inside of the end of another one.
      obtain ⟨rfl, later⟩ := List.cons.inj behind
      have shorter : passed.length < ending.length := by
        simp only [List.length_append, List.length_cons] at inside
        omega
      obtain ⟨more, rfl⟩ : passed <+: ending :=
        List.prefix_of_prefix_length_le ⟨_, later.symm⟩ ⟨rest, rfl⟩ (Nat.le_of_lt shorter)
      have nonempty : more ≠ [] := by
        rintro rfl
        simp at shorter
      have begins := isHead.begins
      rw [isLineEnd.beginsLine_eq_false nonempty] at begins
      cases begins
  · -- A head that begins before the brace ends before it, as it holds none.
    have bounded := (Text.prefix_of_not_mem free behind.symm).length_le
    rw [shape, List.length_append, List.length_append]
    omega

/-- Cuts that are read one behind the other take the blocks of a user out of a text. -/
theorem Passes.isRemoval {text : List Char} {cuts : List Cut} (passes : Passes username [] text cuts last) :
    IsRemoval username text (cuts.flatMap Cut.kept ++ last) cuts last := by
  have own : ∀ before cut behind, cuts = before ++ cut :: behind →
      IsOwnBlockAt username text (before.flatMap Cut.whole ++ cut.kept) cut.gone :=
    fun before cut behind place => passes.isOwnBlockAt place
  obtain ⟨halt, behindCuts, settled⟩ := passes.exists_halt
  simp only [List.nil_append] at settled
  have haltStays : ¬ Goes cuts halt := not_goes_of_prefix behindCuts
  refine ⟨passes.whole_eq, rfl, own, ?takes, ?spares, ?stops, ?clears⟩
  case takes =>
    -- A head that goes ends within the block in which it begins.
    rintro closesNone front opening isHead ⟨before, cut, behind, place, behindKept, upTo⟩
    refine ⟨before, cut, behind, place, behindKept, ?_⟩
    have within : (before.flatMap Cut.whole ++ cut.kept) ++ cut.gone <+: text := by
      refine ⟨behind.flatMap Cut.whole ++ last, ?_⟩
      rw [passes.whole_eq, place]
      simp [Cut.whole]
    rw [Cut.whole, ← List.append_assoc] at upTo ⊢
    exact isHead.length_le closesNone (own before cut behind place) within upTo
  case spares =>
    -- A head that stays is at the halt or behind it, hence behind all cuts.
    intro front opening isHead stays
    exact behindCuts.trans ((settled front opening isHead).resolve_left stays).1
  case stops =>
    intro front opening isHead stays first
    obtain ⟨begins, brace, isHalt, unclosed⟩ := (settled front opening isHead).resolve_left stays
    -- The first head that stays is the one at the halt.
    obtain rfl := begins.eq_of_length_le (first halt brace isHalt haltStays)
    rwa [isHead.opening_eq isHalt]
  case clears =>
    -- With every block closed there is no halt, since its block would be unclosed.
    intro closed front opening isHead
    by_contra stays
    obtain ⟨-, brace, isHalt, unclosed⟩ := (settled front opening isHead).resolve_left stays
    have isClosed := closed halt brace isHalt haltStays
    rw [unclosed] at isClosed
    cases isClosed

namespace Bytes

section Loop

variable {result : List UInt8} {found : Found (byteLength front)}

/-- The end of a front lies in the text. -/
theorem byteLength_le (front rest : List Char) :
    byteLength front ≤ (Text.encode (front ++ rest)).length := by
  -- The text in front is a part of the whole.
  rw [length_encode, byteLength_append]
  exact Nat.le_add_right _ _

/-- Where no definition is found, the rest of the text stays. -/
theorem removeFrom_of_none
    (search : findFrom (headPattern username) (byteLength front) 0 true (front ++ rest) = none) :
    removeFrom username (front ++ rest) (byteLength front) result =
      .ok (result ++ Text.encode rest) := by
  -- Nothing is found, so the rest is pushed as it is.
  rw [removeFrom, dif_pos (byteLength_le front rest), search]
  dsimp only
  rw [slice_to_end]
  rfl

/-- Where a block is never closed, the rest of the text stays. -/
theorem removeFrom_of_unclosed
    (search : findFrom (headPattern username) (byteLength front) 0 true (front ++ rest) = some found)
    (unclosed : extractBlock (front ++ rest) found.stop = none) :
    removeFrom username (front ++ rest) (byteLength front) result =
      .ok (result ++ Text.encode rest) := by
  -- The block has no end, so the loop stops and pushes the rest.
  rw [removeFrom, dif_pos (byteLength_le front rest), search]
  dsimp only
  rw [extract_encode, unclosed, slice_to_end]
  rfl

/-- Where a block is closed, what stands before it stays, and the cursor moves behind it. -/
theorem removeFrom_of_closed {kept : List Char}
    (search : findFrom (headPattern username) (byteLength front) 0 true (front ++ (kept ++ rest)) =
      some found)
    (start : found.start = byteLength (front ++ kept))
    (closed : extractBlock (front ++ (kept ++ rest)) found.stop = some inner) :
    removeFrom username (front ++ (kept ++ rest)) (byteLength front) result =
      removeFrom username (front ++ (kept ++ rest))
        (lineEnd (Text.encode (front ++ (kept ++ rest))) (found.stop + byteLength inner + 1))
        (result ++ Text.encode kept) := by
  rw [removeFrom, dif_pos (byteLength_le front _), search]
  dsimp only
  -- The part between the cursor and the head is cut at the boundaries of characters.
  have cutting := slice_append front kept rest
  rw [List.append_assoc] at cutting
  rw [extract_encode, closed, start, Option.map_some, ← length_encode inner]
  simp only [bind, Except.bind]
  rw [cutting]

/-- The bytes are cut like the characters, and without a fault. -/
theorem removeFrom_of_passes {cuts : List Cut} (passes : Passes username front rest cuts last)
    (result : List UInt8) :
    removeFrom username (front ++ rest) (byteLength front) result =
      .ok (result ++ Text.encode (cuts.flatMap Cut.kept ++ last)) := by
  -- Each cut is one pass of the loop, which leaves the cursor where the reading goes on.
  induction passes generalizing result with
  | @finish front rest free =>
    -- No head is found, and the rest is taken over.
    have search := findFrom_of_isFree free
    rw [List.append_nil] at search
    exact removeFrom_of_none search
  | @stop front kept rest body free begins head unclosed =>
    obtain ⟨opening, opens, rfl⟩ := userHead?_eq_some_iff_opening.1 head
    -- A head without an end of its block stops the loop.
    obtain ⟨found, search, -, stop⟩ := exists_found free begins opens
    refine removeFrom_of_unclosed search ?_
    rw [stop, ← List.append_assoc, opens.extractBlock_eq, unclosed]
    rfl
  | @pass front rest body inner after last cut cuts free begins head closed ending later ih =>
    obtain ⟨opening, opens, whole, -, lineEnd_eq⟩ := exists_ownBlock begins head closed ending
    rw [whole] at free
    obtain ⟨found, search, start, stop⟩ := exists_found free begins opens
    have block : extractBlock (front ++ (cut.kept ++ (opening ++ body))) found.stop = some inner := by
      rw [stop, ← List.append_assoc, opens.extractBlock_eq, closed]
      rfl
    have text_eq : front ++ (cut.whole ++ rest) = front ++ (cut.kept ++ (opening ++ body)) := by
      rw [Cut.whole, List.append_assoc, whole]
    have cursor_eq : lineEnd (Text.encode (front ++ (cut.kept ++ (opening ++ body))))
        (found.stop + byteLength inner + 1) = byteLength (front ++ cut.whole) := by
      rw [stop, ← whole, ← List.append_assoc, lineEnd_eq, List.append_assoc, Cut.whole]
    calc removeFrom username (front ++ (cut.whole ++ rest)) (byteLength front) result
      _ = removeFrom username (front ++ (cut.kept ++ (opening ++ body))) (byteLength front) result := by
        rw [text_eq]
      _ = removeFrom username (front ++ (cut.kept ++ (opening ++ body)))
            (lineEnd (Text.encode (front ++ (cut.kept ++ (opening ++ body))))
              (found.stop + byteLength inner + 1)) (result ++ Text.encode cut.kept) :=
        removeFrom_of_closed search start block
      _ = removeFrom username (front ++ cut.whole ++ rest) (byteLength (front ++ cut.whole))
            (result ++ Text.encode cut.kept) := by
        rw [cursor_eq, ← text_eq, List.append_assoc]
      _ = .ok (result ++ Text.encode cut.kept ++ Text.encode (cuts.flatMap Cut.kept ++ last)) := ih _
      _ = .ok (result ++ Text.encode ((cut :: cuts).flatMap Cut.kept ++ last)) := by
        rw [List.flatMap_cons, List.append_assoc, List.append_assoc, ← Text.encode_append]

end Loop

end Bytes

/--
The blocks of a user are cut out of a text, and nothing else is.

The loop over the bytes leaves the same text, and it ends without a fault, so each of its cuts lies between
characters and behind the one before.
-/
theorem exists_isRemoval (username : String) (text : List Char) :
    (∃ cuts last, IsRemoval username text (removeUserBlock username text) cuts last) ∧
      Bytes.remove username text = .ok (Text.encode (removeUserBlock username text)) := by
  obtain ⟨cuts, last, passes, result_eq⟩ :=
    (removal_removeUserFrom username true text).exists_passes [] rfl
  rw [removeUserBlock, result_eq]
  exact ⟨⟨cuts, last, passes.isRemoval⟩, Bytes.removeFrom_of_passes passes []⟩

-- Behind a removed block its line goes on, so the definition there begins none.
example : removeUserBlock "eve" "users.users.eve = \x7b\x7d; users.users.eve = \x7b\x7d;".toList =
    "users.users.eve = \x7b\x7d;".toList := by
  decide

end NixKeeper.Managed
