import Mathlib.Data.List.Basic
import NixKeeper.Managed.Block

/-!
Where a block ends: the search for its closing brace, character by character.

Texts that lead the search from one depth to another are put together from their parts.
-/

namespace NixKeeper.Managed

/-- Where the search for the end of a block stands behind some characters. -/
structure Stand where
  /-- The number of blocks open inside. -/
  depth : Nat
  /-- The next character stands between quotes. -/
  quoted : Bool
  /-- The next character follows a backslash. -/
  escaped : Bool
deriving DecidableEq

namespace Stand

/-- The search from here on. -/
def split (stand : Stand) (text : List Char) : Option (List Char × List Char) :=
  splitBlock stand.depth stand.quoted stand.escaped text

/-- Where the search stands behind one more character, unless that one closes the block. -/
def step? (stand : Stand) (c : Char) : Option Stand :=
  -- A backslash protects a quote only, and braces count outside of quotes.
  if c = '"' ∧ !stand.escaped then some ⟨stand.depth, !stand.quoted, c == '\\'⟩
  else if c = '{' ∧ !stand.quoted then some ⟨stand.depth + 1, stand.quoted, c == '\\'⟩
  else if c = '}' ∧ !stand.quoted then
    match stand.depth with
    | 0 => none
    | depth + 1 => some ⟨depth, stand.quoted, c == '\\'⟩
  else some ⟨stand.depth, stand.quoted, c == '\\'⟩

/-- Where the search stands behind a text, unless the block ends in it. -/
def behind? : Stand → List Char → Option Stand
  -- The walk ends early at the brace that closes the block.
  | stand, [] => some stand
  | stand, c :: rest => (stand.step? c).bind fun next => next.behind? rest

/-- One character closes the block, or the search goes on behind it. -/
theorem split_cons (stand : Stand) (c : Char) (rest : List Char) :
    stand.split (c :: rest) =
      match stand.step? c with
      | some next => (next.split rest).map fun (body, after) => (c :: body, after)
      | none => some ([], rest) := by
  rw [split, splitBlock.eq_def, step?]
  dsimp only
  -- The branches are those of the step, in the same order.
  split
  · rfl
  · split
    · rfl
    · split
      · cases stand.depth <;> rfl
      · rfl

/-- The search behind two texts stands where the second one leads it to. -/
theorem behind?_append (stand : Stand) (first second : List Char) :
    stand.behind? (first ++ second) =
      (stand.behind? first).bind fun next => next.behind? second := by
  -- The second text is read from wherever the first one has led.
  induction first generalizing stand with
  | nil => rfl
  | cons c first ih =>
    rw [List.cons_append, behind?, behind?, Option.bind_assoc]
    exact congrArg (Option.bind _) (funext ih)

/-- Only a brace outside of quotes closes the block, and only if no other block is open. -/
theorem step?_eq_none_iff {stand : Stand} {c : Char} :
    stand.step? c = none ↔ c = '}' ∧ stand.quoted = false ∧ stand.depth = 0 := by
  rw [step?]
  -- Quotes and opening braces lead on, and so does every other character.
  split
  · rename_i quote
    simp [quote.1]
  · split
    · rename_i opening
      simp [opening.1]
    · split
      · rename_i closing
        obtain ⟨rfl, unquoted⟩ := closing
        cases stand.depth <;> simp_all
      · simp_all

/-- A step remembers whether its character is a backslash. -/
theorem escaped_of_step? {stand next : Stand} {c : Char} (steps : stand.step? c = some next) :
    next.escaped = (c == '\\') := by
  rw [step?] at steps
  -- Every branch that goes on does so in the same way.
  split at steps
  · cases steps
    rfl
  · split at steps
    · cases steps
      rfl
    · split at steps
      · split at steps <;> cases steps
        rfl
      · cases steps
        rfl

/-- The block ends with the first character that closes it. -/
theorem split_eq_some_iff {stand : Stand} {text body after : List Char} :
    stand.split text = some (body, after) ↔
      text = body ++ '}' :: after ∧
        ∃ next, stand.behind? body = some next ∧ next.step? '}' = none := by
  -- The search and the body of the block go on together until a character closes the block.
  induction text generalizing stand body with
  | nil => simp [split, splitBlock]
  | cons c rest ih =>
    rw [split_cons]
    cases steps : stand.step? c with
    | none =>
      obtain ⟨rfl, -⟩ := step?_eq_none_iff.1 steps
      constructor
      · intro found
        cases found
        exact ⟨rfl, stand, rfl, steps⟩
      · rintro ⟨whole, next, reached, -⟩
        -- A longer body would begin with the character that closes the block.
        cases body with
        | nil => rw [(List.cons.inj whole).2]
        | cons d body =>
          obtain ⟨rfl, -⟩ := List.cons.inj whole
          simp [behind?, steps] at reached
    | some next =>
      constructor
      · intro found
        obtain ⟨⟨inner, behind⟩, inRest, same⟩ := Option.map_eq_some_iff.1 found
        cases same
        obtain ⟨rfl, last, reached, closes⟩ := ih.1 inRest
        exact ⟨rfl, last, by rw [behind?, steps, Option.bind_some, reached], closes⟩
      · rintro ⟨whole, last, reached, closes⟩
        cases body with
        | nil =>
          obtain ⟨rfl, -⟩ := List.cons.inj whole
          cases reached
          rw [steps] at closes
          contradiction
        | cons d inner =>
          obtain ⟨rfl, inRest⟩ := List.cons.inj whole
          rw [behind?, steps, Option.bind_some] at reached
          dsimp only
          rw [ih.2 ⟨inRest, last, reached, closes⟩]
          rfl

/-- The search from a place where more blocks are open. -/
def deeper (stand : Stand) (more : Nat) : Stand :=
  -- The braces around the text do not matter inside.
  { stand with depth := stand.depth + more }

/-- A step is the same where more blocks are open. -/
theorem step?_deeper {stand next : Stand} {c : Char} (more : Nat) (steps : stand.step? c = some next) :
    (stand.deeper more).step? c = some (next.deeper more) := by
  -- Each branch of the step adds to the depth or takes from it, and never asks how great it is.
  obtain ⟨depth, quoted, escaped⟩ := stand
  change Stand.step? ⟨depth + more, quoted, escaped⟩ c = some (next.deeper more)
  rw [step?] at steps ⊢
  split at steps
  · rename_i quote
    cases steps
    exact if_pos quote
  · rename_i noQuote
    rw [if_neg noQuote]
    split at steps
    · rename_i opening
      cases steps
      rw [if_pos opening, Nat.add_right_comm]
      rfl
    · rename_i noOpening
      rw [if_neg noOpening]
      split at steps
      · rename_i closing
        rw [if_pos closing]
        -- The step closes a block inside, so one more is open than behind it.
        cases depth with
        | zero => contradiction
        | succ depth =>
          cases steps
          rw [Nat.add_right_comm]
          rfl
      · rename_i noClosing
        cases steps
        exact if_neg noClosing

/-- A text leads on in the same way where more blocks are open. -/
theorem behind?_deeper {stand next : Stand} {text : List Char} (more : Nat)
    (reached : stand.behind? text = some next) :
    (stand.deeper more).behind? text = some (next.deeper more) := by
  -- The steps are the same one after the other.
  induction text generalizing stand with
  | nil =>
    cases reached
    rfl
  | cons c rest ih =>
    rw [behind?] at reached ⊢
    obtain ⟨mid, steps, later⟩ := Option.bind_eq_some_iff.1 reached
    rw [step?_deeper more steps, Option.bind_some, ih later]

end Stand

/--
The body of a block ends with the brace that closes it.

What follows that brace does not matter for where the block ends.
-/
theorem splitBlock_eq_some_iff {depth : Nat} {quoted escaped : Bool} {text body after : List Char} :
    splitBlock depth quoted escaped text = some (body, after) ↔
      text = body ++ '}' :: after ∧
        ∀ other, splitBlock depth quoted escaped (body ++ '}' :: other) = some (body, other) := by
  refine ⟨fun found => ?_, fun ⟨whole, closes⟩ => whole ▸ closes after⟩
  obtain ⟨whole, ends⟩ := (@Stand.split_eq_some_iff ⟨depth, quoted, escaped⟩ _ _ _).1 found
  exact ⟨whole, fun other => Stand.split_eq_some_iff.2 ⟨rfl, ends⟩⟩

/-- A block that is closed stays so, whatever follows, and is closed by itself. -/
theorem splitBlock_append_iff {depth : Nat} {quoted escaped : Bool} {text body after more : List Char} :
    splitBlock depth quoted escaped (text ++ more) = some (body, after ++ more) ↔
      splitBlock depth quoted escaped text = some (body, after) := by
  -- In both texts the block ends with the same brace.
  constructor
  · intro found
    obtain ⟨whole, closes⟩ := splitBlock_eq_some_iff.1 found
    rw [← List.cons_append, ← List.append_assoc, List.append_left_inj] at whole
    exact whole ▸ closes after
  · intro found
    obtain ⟨rfl, closes⟩ := splitBlock_eq_some_iff.1 found
    rw [List.append_assoc, List.cons_append]
    exact closes _

/-- A block that is not closed with more text behind it is not closed without that. -/
theorem splitBlock_eq_none_of_append {depth : Nat} {quoted escaped : Bool} {text more : List Char}
    (unclosed : splitBlock depth quoted escaped (text ++ more) = none) :
    splitBlock depth quoted escaped text = none := by
  rw [Option.eq_none_iff_forall_ne_some]
  rintro ⟨body, after⟩ closed
  -- A block that is closed stays closed, whatever follows.
  have longer := (@splitBlock_append_iff _ _ _ _ _ _ more).2 closed
  rw [unclosed] at longer
  contradiction

/-- The number of bytes of a text. -/
def byteLength : List Char → Nat
  -- A character has from one to four bytes.
  | [] => 0
  | c :: text => c.utf8Size + byteLength text

/-- Whether a text ends with a backslash, given whether one stands before it. -/
def endsEscaped (escaped : Bool) (text : List Char) : Bool :=
  -- Behind no characters nothing has changed.
  text.getLast?.elim escaped (· == '\\')

/-- Only the last character decides whether a text ends with a backslash. -/
theorem endsEscaped_cons (escaped : Bool) (c : Char) (text : List Char) :
    endsEscaped escaped (c :: text) = endsEscaped (c == '\\') text := by
  -- Only the last character decides, or the character in front where there is none.
  cases text with
  | nil => rfl
  | cons d text => simp [endsEscaped, List.getLast?_cons]

/-- An offset of as many bytes as a beginning has leads behind that beginning. -/
theorem textFrom?_append (front rest : List Char) (escaped : Bool) :
    textFrom? (byteLength front) escaped (front ++ rest) =
      some (endsEscaped escaped front, rest) := by
  induction front generalizing escaped with
  | nil => rw [List.nil_append, byteLength, textFrom?]; rfl
  | cons c front ih =>
    have positive := c.utf8Size_pos
    -- The offset is not zero, and the character fits below it.
    obtain ⟨offset, more⟩ : ∃ offset, c.utf8Size + byteLength front = offset + 1 :=
      ⟨c.utf8Size + byteLength front - 1, by omega⟩
    have fits : c.utf8Size ≤ offset + 1 := by omega
    have left : offset + 1 - c.utf8Size = byteLength front := by omega
    rw [byteLength, more, List.cons_append, textFrom?, if_pos fits, left, ih, endsEscaped_cons]

/-- A block is looked for behind a beginning of the text. -/
theorem extractBlock_append (front rest : List Char) :
    extractBlock (front ++ rest) (byteLength front) =
      (splitBlock 0 false (endsEscaped false front) rest).map Prod.fst := by
  rw [extractBlock, textFrom?_append]
  simp only [Option.bind_eq_bind, Option.bind_some, Option.pure_def]
  -- Of the two parts only the body is kept.
  cases splitBlock 0 false (endsEscaped false front) rest with
  | none => rfl
  | some parts => rfl

/-- A text that leads from one depth to another, and that begins and ends outside of quotes. -/
def Leads (before after : Nat) (text : List Char) : Prop :=
  ∃ escaped, Stand.behind? ⟨before, false, false⟩ text = some ⟨after, false, escaped⟩

instance (before after : Nat) (text : List Char) : Decidable (Leads before after text) :=
  inferInstanceAs (Decidable (∃ escaped : Bool, _ = some (Stand.mk after false escaped)))

/-- A character that neither opens nor closes anything, and protects nothing. -/
def isIdle (c : Char) : Bool :=
  c != '"' && c != '{' && c != '}' && c != '\\'

/-- A text without braces and double quotes. -/
def IsBare (text : List Char) : Prop :=
  '"' ∉ text ∧ '{' ∉ text ∧ '}' ∉ text

instance (text : List Char) : Decidable (IsBare text) :=
  inferInstanceAs (Decidable (_ ∧ _))

/-- Bare texts one behind the other are bare. -/
theorem IsBare.append {first second : List Char} (isFirst : IsBare first) (isSecond : IsBare second) :
    IsBare (first ++ second) := by
  -- The three signs are in neither part.
  simp only [IsBare, List.mem_append, not_or] at *
  exact ⟨⟨isFirst.1, isSecond.1⟩, ⟨isFirst.2.1, isSecond.2.1⟩, isFirst.2.2, isSecond.2.2⟩

namespace Leads

variable {before between after : Nat} {first second text : List Char}

/-- A text leads on in the same way where more blocks are open. -/
theorem deeper (leads : Leads before after text) (more : Nat) :
    Leads (before + more) (after + more) text := by
  obtain ⟨escaped, reached⟩ := leads
  exact ⟨escaped, Stand.behind?_deeper more reached⟩

/-- Texts with an idle character between them lead on one after the other. -/
theorem append_cons {c : Char} (leadsFirst : Leads before between first) (idle : isIdle c = true)
    (leadsSecond : Leads between after second) : Leads before after (first ++ c :: second) := by
  obtain ⟨escaped, reached⟩ := leadsFirst
  obtain ⟨last, ends⟩ := leadsSecond
  simp only [isIdle, Bool.and_eq_true, bne_iff_ne] at idle
  obtain ⟨⟨⟨noQuote, noOpening⟩, noClosing⟩, noBackslash⟩ := idle
  -- Behind the idle character no backslash protects the first one of the second text.
  have steps : Stand.step? ⟨between, false, escaped⟩ c = some ⟨between, false, false⟩ := by
    simp [Stand.step?, noQuote, noOpening, noClosing, noBackslash]
  refine ⟨last, ?_⟩
  rw [Stand.behind?_append, reached, Option.bind_some, Stand.behind?, steps, Option.bind_some, ends]

end Leads

/-- A character outside of quotes is passed if it is neither a quote nor a brace. -/
theorem step?_of_ne {depth : Nat} {escaped : Bool} {c : Char} (noQuote : c ≠ '"') (noOpening : c ≠ '{')
    (noClosing : c ≠ '}') :
    Stand.step? ⟨depth, false, escaped⟩ c = some ⟨depth, false, c == '\\'⟩ := by
  -- None of the three signs is met.
  simp [Stand.step?, noQuote, noOpening, noClosing]

/-- A text without braces and quotes leads nowhere else. -/
theorem IsBare.leads {text : List Char} (bare : IsBare text) (depth : Nat) : Leads depth depth text := by
  -- A backslash in the text may protect the next character, but none of them needs protection.
  have passed : ∀ escaped, ∃ last,
      Stand.behind? ⟨depth, false, escaped⟩ text = some ⟨depth, false, last⟩ := by
    induction text with
    | nil => exact fun escaped => ⟨escaped, rfl⟩
    | cons c rest ih =>
      intro escaped
      obtain ⟨noQuote, noOpening, noClosing⟩ := bare
      rw [List.mem_cons, not_or] at noQuote noOpening noClosing
      obtain ⟨last, reached⟩ := ih ⟨noQuote.2, noOpening.2, noClosing.2⟩ (c == '\\')
      refine ⟨last, ?_⟩
      rw [Stand.behind?, step?_of_ne (Ne.symm noQuote.1) (Ne.symm noOpening.1) (Ne.symm noClosing.1),
        Option.bind_some, reached]
  exact passed false

/--
Every closing brace of a text has an opening one before it, and none stays open.

The first argument counts the braces that are open before the text.
-/
def bracesMatch : Nat → List Char → Bool
  | depth, [] => depth == 0
  | depth, '{' :: rest => bracesMatch (depth + 1) rest
  -- A brace that closes nothing ends the match.
  | 0, '}' :: _ => false
  | depth + 1, '}' :: rest => bracesMatch depth rest
  | depth, _ :: rest => bracesMatch depth rest

/-- A text without quotes whose braces match leads back to the depth at which it begins. -/
theorem leads_of_bracesMatch {text : List Char} (noQuote : '"' ∉ text)
    (balanced : bracesMatch 0 text = true) : Leads 0 0 text := by
  -- The search counts the same braces.
  have passed : ∀ depth escaped, bracesMatch depth text = true → ∃ last,
      Stand.behind? ⟨depth, false, escaped⟩ text = some ⟨0, false, last⟩ := by
    clear balanced
    induction text with
    | nil =>
      intro depth escaped balanced
      obtain rfl : depth = 0 := by simpa [bracesMatch] using balanced
      exact ⟨escaped, rfl⟩
    | cons c rest ih =>
      intro depth escaped balanced
      obtain ⟨other, later⟩ := not_or.1 (mt List.mem_cons.2 noQuote)
      have leadsOn : ∀ next, Stand.step? ⟨depth, false, escaped⟩ c = some ⟨next, false, c == '\\'⟩ →
          bracesMatch next rest = true → ∃ last,
            Stand.behind? ⟨depth, false, escaped⟩ (c :: rest) = some ⟨0, false, last⟩ := by
        intro next steps matched
        obtain ⟨last, reached⟩ := ih later next (c == '\\') matched
        exact ⟨last, by rw [Stand.behind?, steps, Option.bind_some, reached]⟩
      by_cases opening : c = '{'
      · subst opening
        exact leadsOn (depth + 1) (by simp [Stand.step?]) balanced
      by_cases closing : c = '}'
      · subst closing
        cases depth with
        | zero => contradiction
        | succ depth => exact leadsOn depth (by simp [Stand.step?]) balanced
      · refine leadsOn depth (step?_of_ne (Ne.symm other) opening closing) ?_
        rwa [bracesMatch] at balanced
        · exact opening
        · exact fun _ => closing
        · exact fun _ _ => closing
  exact passed 0 false balanced

end NixKeeper.Managed
