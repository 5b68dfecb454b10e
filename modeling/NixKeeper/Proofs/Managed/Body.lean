import NixKeeper.Proofs.Managed.Bytes

/-!
The bodies of blocks as a language.

The search for the end of a block, with its count of braces and its switch for quotes, finds the texts
of this language that a closing brace follows, and nothing else.
-/

namespace NixKeeper.Managed

/-- A quote is active unless a backslash stands right before it. -/
def isActiveQuote (escaped : Bool) (c : Char) : Bool :=
  c == '"' && !escaped

/-- No quote of a text is active, given whether a backslash stands before the text. -/
def isQuiet : Bool → List Char → Bool
  | _, [] => true
  -- Every character is escaped or not by the one in front of it.
  | escaped, c :: rest => !isActiveQuote escaped c && isQuiet (c == '\\') rest

/--
The bodies of blocks, given whether a backslash stands before them.

A body is a sequence of plain characters, of stretches between quotes, and of blocks.
-/
inductive IsBody : Bool → List Char → Prop where
  /-- Nothing at all. -/
  | nil {escaped : Bool} : IsBody escaped []
  /-- A character that is neither an active quote nor a brace. -/
  | plain {escaped : Bool} {c : Char} {rest : List Char} (noQuote : isActiveQuote escaped c = false)
      (noOpening : c ≠ '{') (noClosing : c ≠ '}') (later : IsBody (c == '\\') rest) :
      IsBody escaped (c :: rest)
  /-- An active quote, characters other than active quotes, and the next active quote. -/
  | quoted {inside rest : List Char} (quiet : isQuiet false inside = true)
      (active : endsEscaped false inside = false) (later : IsBody false rest) :
      IsBody false ('"' :: (inside ++ '"' :: rest))
  /-- A body between braces. -/
  | block {escaped : Bool} {inside rest : List Char} (inner : IsBody false inside)
      (later : IsBody false rest) : IsBody escaped ('{' :: (inside ++ '}' :: rest))

namespace Stand

/-- A text between quotes in which no quote is active leads to its end and no further. -/
theorem behind?_of_isQuiet {depth : Nat} {escaped : Bool} {text : List Char}
    (quiet : isQuiet escaped text = true) :
    behind? ⟨depth, true, escaped⟩ text = some ⟨depth, true, endsEscaped escaped text⟩ := by
  induction text generalizing escaped with
  | nil => rfl
  | cons c rest ih =>
    rw [isQuiet, Bool.and_eq_true] at quiet
    -- No quote is active, so each step stays between the quotes.
    have steps : step? ⟨depth, true, escaped⟩ c = some ⟨depth, true, c == '\\'⟩ := by
      simpa [step?, isActiveQuote, imp_iff_not_or] using quiet.1
    rw [behind?, steps, Option.bind_some, ih quiet.2, endsEscaped_cons]

/-- Behind a body the search stands at the same depth, and outside of quotes. -/
theorem behind?_of_isBody {escaped : Bool} {body : List Char} (isBody : IsBody escaped body)
    (depth : Nat) : behind? ⟨depth, false, escaped⟩ body =
      some ⟨depth, false, endsEscaped escaped body⟩ := by
  -- A stretch between quotes or braces leads back to the depth at which it was entered.
  induction isBody generalizing depth with
  | nil => rfl
  | @plain escaped c rest noQuote noOpening noClosing later ih =>
    have steps : step? ⟨depth, false, escaped⟩ c = some ⟨depth, false, c == '\\'⟩ := by
      simpa [step?, noOpening, noClosing, isActiveQuote] using noQuote
    rw [behind?, steps, Option.bind_some, ih, endsEscaped_cons]
  | @quoted inside rest quiet active later ih =>
    have opens : step? ⟨depth, false, false⟩ '"' = some ⟨depth, true, false⟩ := rfl
    have closes : step? ⟨depth, true, false⟩ '"' = some ⟨depth, false, false⟩ := rfl
    have ends : endsEscaped false ('"' :: (inside ++ '"' :: rest)) = endsEscaped false rest := by
      rw [← List.cons_append, endsEscaped_append_cons]
      rfl
    rw [behind?, opens, Option.bind_some, behind?_append, behind?_of_isQuiet quiet, Option.bind_some,
      active, behind?, closes, Option.bind_some, ih, ends]
  | @block escaped inside rest inner later ihInner ihLater =>
    have opens : step? ⟨depth, false, escaped⟩ '{' = some ⟨depth + 1, false, false⟩ := by
      simp [step?]
    have closes : step? ⟨depth + 1, false, endsEscaped false inside⟩ '}' =
        some ⟨depth, false, false⟩ := by
      simp [step?]
    have ends : endsEscaped escaped ('{' :: (inside ++ '}' :: rest)) = endsEscaped false rest := by
      rw [← List.cons_append, endsEscaped_append_cons]
      rfl
    rw [behind?, opens, Option.bind_some, behind?_append, ihInner, Option.bind_some, behind?, closes,
      Option.bind_some, ihLater, ends]

/-- A search that leaves the quotes does so at the first active quote. -/
theorem exists_closing_quote {depth : Nat} {escaped : Bool} {text : List Char} {last : Stand}
    (reached : behind? ⟨depth, true, escaped⟩ text = some last) (outside : last.quoted = false) :
    ∃ inside rest, text = inside ++ '"' :: rest ∧ isQuiet escaped inside = true ∧
      endsEscaped escaped inside = false ∧ behind? ⟨depth, false, false⟩ rest = some last := by
  -- The first active quote ends the stretch, and everything before it is quiet.
  induction text generalizing escaped with
  | nil =>
    cases reached
    cases outside
  | cons c rest ih =>
    cases active : isActiveQuote escaped c with
    | true =>
      simp only [isActiveQuote, Bool.and_eq_true, beq_iff_eq, Bool.not_eq_true'] at active
      obtain ⟨rfl, rfl⟩ := active
      exact ⟨[], rest, rfl, rfl, rfl, reached⟩
    | false =>
      have steps : step? ⟨depth, true, escaped⟩ c = some ⟨depth, true, c == '\\'⟩ := by
        simpa [step?, isActiveQuote] using active
      rw [behind?, steps, Option.bind_some] at reached
      obtain ⟨inside, behind, rfl, quiet, ends, later⟩ := ih reached
      exact ⟨c :: inside, behind, rfl, by simp [isQuiet, active, quiet],
        by rw [endsEscaped_cons, ends], later⟩

/-- A search that leaves a block does so at the brace that closes the block. -/
theorem exists_closing_brace {depth inner : Nat} {quoted escaped : Bool} {text : List Char} {last : Stand}
    (reached : behind? ⟨inner + (depth + 1), quoted, escaped⟩ text = some last)
    (outside : last.depth ≤ depth) :
    ∃ inside rest ends, text = inside ++ '}' :: rest ∧
      behind? ⟨inner, quoted, escaped⟩ inside = some ⟨0, false, ends⟩ ∧
      behind? ⟨depth, false, false⟩ rest = some last := by
  -- The steps are those of a search that begins in the block alone, up to the one that closes it.
  induction text generalizing inner quoted escaped with
  | nil =>
    cases reached
    simp only at outside
    omega
  | cons c rest ih =>
    rw [behind?] at reached
    cases steps : step? ⟨inner, quoted, escaped⟩ c with
    | none =>
      obtain ⟨rfl, unquoted, atBlock⟩ := step?_eq_none_iff.1 steps
      simp only at unquoted atBlock
      subst unquoted atBlock
      have closes : step? ⟨0 + (depth + 1), false, escaped⟩ '}' = some ⟨depth, false, false⟩ := by
        simp [step?]
      rw [closes, Option.bind_some] at reached
      exact ⟨[], rest, escaped, rfl, rfl, reached⟩
    | some next =>
      have deep : step? ⟨inner + (depth + 1), quoted, escaped⟩ c = some (next.deeper (depth + 1)) :=
        step?_deeper (depth + 1) steps
      rw [deep, Option.bind_some] at reached
      obtain ⟨inside, behind, ends, rfl, within, later⟩ := ih reached
      exact ⟨c :: inside, behind, ends, rfl, by rw [behind?, steps, Option.bind_some, within], later⟩

/-- A text behind which the search stands at the same depth, and outside of quotes, is a body. -/
theorem isBody_of_behind? {escaped ends : Bool} {text : List Char}
    (reached : behind? ⟨0, false, escaped⟩ text = some ⟨0, false, ends⟩) : IsBody escaped text := by
  -- A stretch between quotes or braces leaves a shorter text, and so does a plain character.
  induction size : text.length using Nat.strongRecOn generalizing text escaped ends with
  | ind size ih =>
    subst size
    cases text with
    | nil => exact .nil
    | cons c rest =>
      rw [behind?] at reached
      cases active : isActiveQuote escaped c with
      | true =>
        simp only [isActiveQuote, Bool.and_eq_true, beq_iff_eq, Bool.not_eq_true'] at active
        obtain ⟨rfl, rfl⟩ := active
        -- A quote opens a stretch, which has to be closed before the end.
        obtain ⟨inside, behind, rfl, quiet, free, later⟩ := exists_closing_quote reached rfl
        have shorter : behind.length < ('"' :: (inside ++ '"' :: behind)).length := by
          simp only [List.length_cons, List.length_append]
          omega
        exact .quoted quiet free (ih behind.length shorter later rfl)
      | false =>
        by_cases opening : c = '{'
        · subst opening
          -- A brace opens an inner block, which has to be closed as well.
          have opens : step? ⟨0, false, escaped⟩ '{' = some ⟨0 + (0 + 1), false, false⟩ := by
            simp [step?]
          rw [opens, Option.bind_some] at reached
          obtain ⟨inside, behind, inner, rfl, within, later⟩ :=
            exists_closing_brace reached (Nat.le_refl 0)
          have shorter : inside.length < ('{' :: (inside ++ '}' :: behind)).length ∧
              behind.length < ('{' :: (inside ++ '}' :: behind)).length := by
            simp only [List.length_cons, List.length_append]
            omega
          exact .block (ih inside.length shorter.1 within rfl) (ih behind.length shorter.2 later rfl)
        by_cases closing : c = '}'
        · subst closing
          -- A closing brace would end the block before the end of the text.
          have closes : step? ⟨0, false, escaped⟩ '}' = none := step?_eq_none_iff.2 ⟨rfl, rfl, rfl⟩
          rw [closes] at reached
          cases reached
        · have steps : step? ⟨0, false, escaped⟩ c = some ⟨0, false, c == '\\'⟩ := by
            simpa [step?, opening, closing, isActiveQuote] using active
          rw [steps, Option.bind_some] at reached
          exact .plain active opening closing (ih rest.length (by simp) reached rfl)

end Stand

/-- A block is closed by the brace behind a body. -/
theorem splitBlock_eq_some_iff_isBody {escaped : Bool} {text body after : List Char} :
    splitBlock 0 false escaped text = some (body, after) ↔
      text = body ++ '}' :: after ∧ IsBody escaped body := by
  -- The search ends at the first brace at which no step is left.
  have found := @Stand.split_eq_some_iff ⟨0, false, escaped⟩ text body after
  rw [Stand.split] at found
  rw [found]
  refine and_congr_right fun _ => ?_
  constructor
  · rintro ⟨⟨depth, quoted, ends⟩, reached, closes⟩
    obtain ⟨-, unquoted, atBlock⟩ := Stand.step?_eq_none_iff.1 closes
    simp only at unquoted atBlock
    subst unquoted atBlock
    exact Stand.isBody_of_behind? reached
  · intro isBody
    exact ⟨_, Stand.behind?_of_isBody isBody 0, Stand.step?_eq_none_iff.2 ⟨rfl, rfl, rfl⟩⟩

/-- A body and a closing brace stand at a byte offset of a text. -/
def HasBlockAt (text : List Char) (start : Nat) (body : List Char) : Prop :=
  ∃ front rest, text = front ++ (body ++ '}' :: rest) ∧ byteLength front = start ∧
    -- Whether the first quote of the body is active is decided before the offset.
    IsBody (endsEscaped false front) body

/-- What is extracted is the body that stands at the offset. -/
theorem extractBlock_eq_some_iff {text body : List Char} {start : Nat} :
    extractBlock text start = some body ↔ HasBlockAt text start body := by
  simp only [extractBlock, Option.bind_eq_bind, Option.bind_eq_some_iff, Option.pure_def,
    Option.some.injEq, Prod.exists]
  -- Both sides cut the text at the offset and again at the closing brace.
  constructor
  · rintro ⟨ends, behind, place, inner, rest, found, rfl⟩
    obtain ⟨front, rfl, count, rfl⟩ := textFrom?_eq_some_iff.1 place
    obtain ⟨rfl, isBody⟩ := splitBlock_eq_some_iff_isBody.1 found
    exact ⟨front, rest, rfl, count, isBody⟩
  · rintro ⟨front, rest, rfl, rfl, isBody⟩
    exact ⟨_, _, textFrom?_append front _ false, body, rest,
      splitBlock_eq_some_iff_isBody.2 ⟨rfl, isBody⟩, rfl⟩

/--
At each offset exactly the body is extracted that a closing brace follows there.

There is at most one, and where there is none nothing is extracted. The search over the bytes has the
same answer and ends without a fault, so no block is closed that is not open, and no slice is cut that is
none.
-/
theorem extractBlock_iff_body (text : List Char) (start : Nat) :
    (∀ body, extractBlock text start = some body ↔ HasBlockAt text start body) ∧
      (∀ body other, HasBlockAt text start body → HasBlockAt text start other → body = other) ∧
      (extractBlock text start = none ↔ ¬ ∃ body, HasBlockAt text start body) ∧
      Bytes.extract (Text.encode text) start = .ok ((extractBlock text start).map Text.encode) := by
  refine ⟨fun body => extractBlock_eq_some_iff, ?_, ?_, Bytes.extract_encode text start⟩
  · -- Two bodies at one offset are both what is extracted.
    intro body other isBody isOther
    have first : extractBlock text start = some body := extractBlock_eq_some_iff.2 isBody
    have second : extractBlock text start = some other := extractBlock_eq_some_iff.2 isOther
    exact Option.some.inj (first.symm.trans second)
  · simp only [← extractBlock_eq_some_iff, ← Option.isSome_iff_exists]
    rw [Option.not_isSome_iff_eq_none]

-- The backslash before the offset protects the quote behind it, so the brace closes the block.
example : extractBlock "\\\"\x7d".toList 1 = some ['"'] := by
  decide

end NixKeeper.Managed
