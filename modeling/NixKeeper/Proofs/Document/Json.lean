import NixKeeper.Document.Json.Parser
import NixKeeper.Document.Json.Printer
import NixKeeper.Proofs.Document.Basic
import NixKeeper.Proofs.Document.Number

/-! A document is read back from its JSON text if each of its floating-point numbers is. -/

namespace NixKeeper.Json

/-- How a character of a text is read back: as itself, or by its code where it has no short form. -/
def pieceOf (c : Char) : Piece :=
  -- The control characters with a letter of their own come back as characters.
  if c.toNat < 0x20 ∧ c ∉ ['\n', '\r', '\t', '\x08', '\x0c'] then .unit c.toNat else .plain c

/-- A hexadecimal digit is read back. -/
theorem hexValue?_hexDigit : ∀ n < 16, hexValue? (hexDigit n) = some n := by
  -- There are sixteen digits to look at.
  decide

/-- The codes of the control characters have two zeros and two digits. -/
theorem hexCode?_control {code : Nat} (control : code < 0x20) :
    hexCode? '0' '0' (hexDigit (code / 16)) (hexDigit code) = some code := by
  have zero : hexValue? '0' = some 0 := by decide
  have high := hexValue?_hexDigit (code / 16) (by omega)
  -- A digit is written for the last four bits of whatever number is given.
  have low : hexValue? (hexDigit code) = some (code % 16) := by
    rw [← hexValue?_hexDigit (code % 16) (by omega)]
    simp [hexDigit]
  simp only [hexCode?, zero, high, low, Option.bind_eq_bind, Option.bind_some, Option.some.injEq]
  omega

/-- A character is escaped by a letter of its own, by its code, or not at all. -/
theorem escape_cases (c : Char) :
    (∃ letter, escape c = ['\\', letter] ∧ letter ≠ 'u' ∧ shortEscape? letter = some c ∧
      pieceOf c = .plain c) ∨
    (escape c = ['\\', 'u', '0', '0', hexDigit (c.toNat / 16), hexDigit c.toNat] ∧
      c.toNat < 0x20 ∧ pieceOf c = .unit c.toNat) ∨
    (escape c = [c] ∧ c ≠ '"' ∧ c ≠ '\\' ∧ 0x20 ≤ c.toNat ∧ pieceOf c = .plain c) := by
  by_cases short : c ∈ ['"', '\\', '\n', '\r', '\t', '\x08', '\x0c']
  · left
    simp only [List.mem_cons, List.not_mem_nil, or_false] at short
    -- Each of the seven characters has its own letter.
    rcases short with rfl | rfl | rfl | rfl | rfl | rfl | rfl
    · exact ⟨'"', by decide, by decide, rfl, rfl⟩
    · exact ⟨'\\', by decide, by decide, rfl, rfl⟩
    · exact ⟨'n', by decide, by decide, rfl, rfl⟩
    · exact ⟨'r', by decide, by decide, rfl, rfl⟩
    · exact ⟨'t', by decide, by decide, rfl, rfl⟩
    · exact ⟨'b', by decide, by decide, rfl, rfl⟩
    · exact ⟨'f', by decide, by decide, rfl, rfl⟩
  · right
    simp only [List.mem_cons, List.not_mem_nil, or_false, not_or] at short
    obtain ⟨quote, backslash, lineFeed, carriage, tab, backspace, formFeed⟩ := short
    -- The two codes that the printer compares are those of the last two letters.
    have backspaceCode : c.toNat ≠ 0x08 := fun same => backspace (Char.toNat_inj.1 same)
    have formFeedCode : c.toNat ≠ 0x0C := fun same => formFeed (Char.toNat_inj.1 same)
    rcases Nat.lt_or_ge c.toNat 0x20 with control | plain
    · left
      refine ⟨?_, control, ?_⟩
      · simp [escape, quote, backslash, lineFeed, carriage, tab, backspaceCode, formFeedCode, control]
      · simp [pieceOf, lineFeed, carriage, tab, backspace, formFeed, control]
    · right
      have noControl := Nat.not_lt.2 plain
      refine ⟨?_, quote, backslash, plain, ?_⟩
      · simp [escape, quote, backslash, lineFeed, carriage, tab, backspaceCode, formFeedCode, noControl]
      · simp [pieceOf, noControl]

/-- One escaped character is read as one piece. -/
theorem pieces_escape_append (c : Char) (rest : List Char) :
    pieces (escape c ++ rest) =
      (pieces rest).map fun (more, after) => (pieceOf c :: more, after) := by
  -- The three ways of writing a character are told apart by what follows the backslash.
  rcases escape_cases c with ⟨letter, shape, noCode, meant, piece⟩ | ⟨shape, control, piece⟩ |
    ⟨shape, quote, backslash, plain, piece⟩
  · rw [shape, piece, List.cons_append, List.cons_append, List.nil_append, pieces, meant]
    · cases pieces rest <;> rfl
    · simp [noCode]
  · simp only [shape, piece, List.cons_append, List.nil_append]
    rw [pieces, hexCode?_control control]
    cases pieces rest <;> rfl
  · rw [shape, piece, List.cons_append, List.nil_append, pieces]
    · have noControl : ¬ (c = '\\' ∨ c.toNat < 0x20) := by
        simp [backslash, Nat.not_lt.2 plain]
      rw [if_neg noControl]
      cases pieces rest <;> rfl
    · simp [quote]
    · simp [backslash]
    · simp [backslash]

/-- The pieces of an escaped text are those of its characters. -/
theorem pieces_escaped (text after : List Char) :
    pieces (text.flatMap escape ++ '"' :: after) = some (text.map pieceOf, after) := by
  induction text with
  | nil => simp [pieces]
  | cons c text ih =>
    rw [List.flatMap_cons, List.append_assoc, pieces_escape_append, ih]
    rfl

/-- The pieces of a text give the text again, since no code is half of a pair. -/
theorem characters?_map_pieceOf (text : List Char) : characters? (text.map pieceOf) = some text := by
  induction text with
  | nil => rfl
  | cons c text ih =>
    rw [List.map_cons, pieceOf]
    split
    · rename_i control
      -- A code below all surrogates is a character whatever follows it.
      have small := control.1
      have noHigh : ¬ (0xD800 ≤ c.toNat ∧ c.toNat < 0xDC00) := by omega
      have noLow : ¬ (0xDC00 ≤ c.toNat ∧ c.toNat < 0xE000) := by omega
      have noHalf : ¬ (0xD800 ≤ c.toNat ∧ c.toNat < 0xE000) := by omega
      rw [characters?.eq_def]
      cases next : text.map pieceOf with
      | nil =>
        obtain rfl := List.map_eq_nil_iff.1 next
        simp [noHalf, characters?]
      | cons piece pieces =>
        rw [next] at ih
        cases piece <;> simp [noHigh, noLow, noHalf, ih]
    · rw [characters?, ih]
      rfl

/-- A quoted text is read back, and what follows it is left. -/
theorem quoted?_escaped (text : String) (after : List Char) :
    quoted? (text.toList.flatMap escape ++ '"' :: after) = some (some text, after) := by
  simp [quoted?, pieces_escaped, characters?_map_pieceOf]

/-- A table whose keys could all be read is a table. -/
theorem tableDocument_of_keys (entries : List (String × Document)) :
    tableDocument (entries.map fun entry => (some entry.1, entry.2)) = .table entries := by
  -- Every key is there, so none of the entries keeps the table from being built.
  have named : (entries.map fun entry => (some entry.1, entry.2)).mapM
      (fun entry : Option String × Document => entry.1.map (·, entry.2)) = some (entries.map id) :=
    Document.mapM_map fun _ _ => rfl
  rw [tableDocument, named, List.map_id]

/-- A floating-point number is read back from its text. -/
def IsFaithful (value : Binary64) : Prop :=
  -- What is not finite has no number for its text, so it is not read back.
  number? (float value) = some (.float value, [])

mutual

/-- The text of the document tells everything about it, if its floating-point numbers are as asked. -/
def IsPlainWith (holds : Binary64 → Prop) : Document → Prop
  -- Every integer between the two bounds is read back as an integer.
  | .integer value => Int64.minValue.toInt ≤ value ∧ value < UInt64.size
  | .float value => holds value
  | .list items => ItemsPlainWith holds items
  | .table entries => EntriesPlainWith holds entries
  | .unreadable => False
  | _ => True

/-- Every item is plain. -/
def ItemsPlainWith (holds : Binary64 → Prop) : List Document → Prop
  -- The condition is one on each item.
  | [] => True
  | item :: rest => IsPlainWith holds item ∧ ItemsPlainWith holds rest

/-- Every value of an entry is plain. -/
def EntriesPlainWith (holds : Binary64 → Prop) : List (String × Document) → Prop
  -- The condition is one on each entry.
  | [] => True
  | entry :: rest => EntryPlainWith holds entry ∧ EntriesPlainWith holds rest

/-- The value of an entry is plain. -/
def EntryPlainWith (holds : Binary64 → Prop) : String × Document → Prop
  | (_, document) => IsPlainWith holds document

end

/-- The text of the document tells everything about it, each floating-point number included. -/
abbrev IsPlain (document : Document) : Prop :=
  IsPlainWith IsFaithful document

section

variable {holds : Binary64 → Prop}

/-- A truth value is plain. -/
@[simp] theorem isPlainWith_bool (value : Bool) : IsPlainWith holds (.bool value) :=
  trivial

/-- A text is plain. -/
@[simp] theorem isPlainWith_text (value : String) : IsPlainWith holds (.text value) :=
  trivial

/-- A list is plain if all its items are. -/
theorem isPlainWith_list_iff {items : List Document} :
    IsPlainWith holds (.list items) ↔ ∀ item ∈ items, IsPlainWith holds item := by
  -- The condition on the items is itself a recursion over the list.
  rw [IsPlainWith]
  induction items with
  | nil => simp [ItemsPlainWith]
  | cons item rest ih => rw [ItemsPlainWith, ih, List.forall_mem_cons]

/-- A table is plain if all its values are. -/
theorem isPlainWith_table_iff {entries : List (String × Document)} :
    IsPlainWith holds (.table entries) ↔ ∀ entry ∈ entries, IsPlainWith holds entry.2 := by
  -- The condition on the entries looks at their values alone.
  rw [IsPlainWith]
  induction entries with
  | nil => simp [EntriesPlainWith]
  | cons entry rest ih => rw [EntriesPlainWith, ih, List.forall_mem_cons, EntryPlainWith]

end

/-- Blanks between parts are passed over. -/
theorem skipBlanks_break_append (style : Style) (depth : Nat) (text : List Char) :
    skipBlanks (style.break depth ++ text) = skipBlanks text := by
  have blanks : ∀ c ∈ style.break depth, isBlank c = true := by
    intro c within
    -- A break is empty, or a line feed with an indentation.
    cases style with
    | compact => simp [Style.break] at within
    | indented =>
      simp only [Style.break, List.mem_cons, List.mem_replicate] at within
      rcases within with rfl | ⟨-, rfl⟩ <;> decide
  exact List.dropWhile_append_of_pos blanks

/-- A text that begins with no blank is read from its beginning. -/
theorem skipBlanks_cons_of_not {c : Char} (mark : isBlank c = false) (text : List Char) :
    skipBlanks (c :: text) = c :: text := by
  -- The first character already ends the run of blanks.
  rw [skipBlanks, List.dropWhile_cons_of_neg (by simp [mark])]

/-- A colon is followed by blanks at most. -/
theorem exists_colon (style : Style) :
    ∃ gap, style.colon = ':' :: gap ∧ ∀ text, skipBlanks (gap ++ text) = skipBlanks text := by
  -- The indented style puts a space behind the colon, and the compact one puts nothing.
  cases style with
  | compact => exact ⟨[], rfl, fun _ => rfl⟩
  | indented => exact ⟨[' '], rfl, fun _ => List.dropWhile_cons_of_pos (by decide)⟩

/-- A value is looked for behind blanks. -/
theorem value?_congr (fuel : Nat) {text other : List Char} (same : skipBlanks text = skipBlanks other) :
    value? fuel text = value? fuel other := by
  -- A value is read behind the blanks, so only what follows them counts.
  cases fuel with
  | zero => rfl
  | succ fuel => rw [value?, value?, same]

/-- Items are looked for behind blanks. -/
theorem items?_congr (fuel : Nat) {text other : List Char} (same : skipBlanks text = skipBlanks other) :
    items? fuel text = items? fuel other := by
  -- The first item is a value, which is read behind the blanks.
  cases fuel with
  | zero => rfl
  | succ fuel => rw [items?, items?, value?_congr fuel same]

/-- Entries are looked for behind blanks. -/
theorem entries?_congr (fuel : Nat) {text other : List Char}
    (same : skipBlanks text = skipBlanks other) : entries? fuel text = entries? fuel other := by
  -- The first key is looked for behind the blanks.
  cases fuel with
  | zero => rfl
  | succ fuel => rw [entries?, entries?, same]

/-- A break or a closing bracket ends a number, and so does a comma. -/
theorem endsNumber_break_append (style : Style) (depth : Nat) {c : Char} (rest : List Char)
    (mark : c ∈ [',', ']', '\x7d']) : EndsNumber (style.break depth ++ c :: rest) := by
  intro d first
  -- The next character is the line feed of a break, or the mark itself.
  have among : d ∈ ['\n', ',', ']', '\x7d'] := by
    cases style with
    | compact =>
      obtain rfl : c = d := by simpa [Style.break] using first
      exact List.mem_cons_of_mem _ mark
    | indented =>
      obtain rfl : '\n' = d := by simpa [Style.break] using first
      exact List.mem_cons_self
  simp only [List.mem_cons, List.not_mem_nil, or_false] at among
  rcases among with rfl | rfl | rfl | rfl <;> decide

/-- What follows a part of a list or a table ends a number. -/
theorem endsNumber_cons {c : Char} (rest : List Char) (mark : c ∈ [',', ']', '\x7d']) :
    EndsNumber (c :: rest) :=
  endsNumber_break_append .compact 0 rest mark

/-- A value that begins like a number is one. -/
theorem value?_of_number {fuel : Nat} {c : Char} {rest : List Char}
    (head : c.isDigit = true ∨ c = '-') : value? (fuel + 1) (c :: rest) = number? (c :: rest) := by
  have apart : c ∉ [' ', '\n', '\t', '\r', 'n', 't', 'f', '"', '[', '\x7b'] := by
    intro within
    simp only [List.mem_cons, List.not_mem_nil, or_false] at within
    rcases within with rfl | rfl | rfl | rfl | rfl | rfl | rfl | rfl | rfl | rfl <;>
      revert head <;> decide
  simp only [List.mem_cons, List.not_mem_nil, or_false, not_or] at apart
  rw [value?, skipBlanks_cons_of_not (by simp [isBlank, apart])]
  -- None of the other kinds of values begins with this character.
  split <;> simp_all

/-- What a number begins with is neither a blank nor a bracket that closes a list. -/
theorem isBlank_of_number {c : Char} (head : c.isDigit = true ∨ c = '-') :
    isBlank c = false ∧ c ≠ ']' := by
  -- None of the five characters is a digit or a minus sign.
  have apart : c ∉ [' ', '\n', '\t', '\r', ']'] := by
    intro within
    simp only [List.mem_cons, List.not_mem_nil, or_false] at within
    rcases within with rfl | rfl | rfl | rfl | rfl <;> revert head <;> decide
  simp only [List.mem_cons, List.not_mem_nil, or_false, not_or] at apart
  exact ⟨by simp [isBlank, apart], apart.2.2.2.2⟩

/-- A written document begins neither with a blank nor with a bracket that closes one. -/
theorem head_write (style : Style) (depth : Nat) {document : Document} (plain : IsPlain document) :
    ∃ c rest, write style depth document = c :: rest ∧ isBlank c = false ∧ c ≠ ']' := by
  -- Each kind of document is known by its first character.
  cases document with
  | null => exact ⟨'n', _, rfl, by decide⟩
  | bool value =>
    cases value with
    | true => exact ⟨'t', _, rfl, by decide⟩
    | false => exact ⟨'f', _, rfl, by decide⟩
  | integer value =>
    obtain ⟨c, rest, shape, head⟩ := head_ofInt value
    exact ⟨c, rest, shape, isBlank_of_number head⟩
  | float value =>
    obtain ⟨c, rest, shape, head⟩ := head_of_number? plain
    exact ⟨c, rest, shape, isBlank_of_number head⟩
  | text value => exact ⟨'"', _, rfl, by decide⟩
  | list items => cases items <;> exact ⟨'[', _, rfl, by decide⟩
  | table entries => cases entries <;> exact ⟨'\x7b', _, rfl, by decide⟩
  | unreadable => exact plain.elim

/-- A document is read back at every depth, and what follows it is left. -/
def ReadBack (style : Style) (document : Document) : Prop :=
  -- Two steps for each character are enough, since every level takes at least one of them.
  ∀ (depth fuel : Nat) (after : List Char), EndsNumber after →
    2 * (write style depth document).length ≤ fuel →
    value? fuel (write style depth document ++ after) = some (document, after)

/-- Written items are read back up to the closing bracket. -/
theorem items?_writeItems {style : Style} {first : Document} {rest : List Document}
    (depth outer fuel : Nat) (after : List Char) (each : ∀ item ∈ first :: rest, ReadBack style item)
    (enough : 2 * ((write style depth first).length + (writeItems style depth rest).length) < fuel) :
    items? fuel (write style depth first ++ writeItems style depth rest ++
      style.break outer ++ ']' :: after) = some (first :: rest, after) := by
  induction rest generalizing first fuel with
  | nil =>
    obtain ⟨fuel, rfl⟩ : ∃ smaller, fuel = smaller + 1 := ⟨fuel - 1, by omega⟩
    -- The last item is followed by the break before the bracket.
    have read := each first List.mem_cons_self depth fuel (style.break outer ++ ']' :: after)
      (endsNumber_break_append style outer after (by simp)) (by omega)
    simp only [writeItems, List.append_assoc, List.nil_append, items?, read, Option.bind_eq_bind,
      Option.bind_some, skipBlanks_break_append]
    rw [skipBlanks_cons_of_not (by decide)]
    rfl
  | cons second rest ih =>
    obtain ⟨fuel, rfl⟩ : ∃ smaller, fuel = smaller + 1 := ⟨fuel - 1, by omega⟩
    obtain ⟨readable, eachLater⟩ := List.forall_mem_cons.1 each
    simp only [writeItems, List.length_cons, List.length_append] at enough
    -- Behind the comma the text is that of a list with one item less.
    have later := @ih second fuel eachLater (by omega)
    have read := readable depth fuel
      (',' :: style.break depth ++ write style depth second ++ writeItems style depth rest ++
        style.break outer ++ ']' :: after)
      (endsNumber_cons _ (by simp)) (by omega)
    simp only [writeItems, List.cons_append, List.append_assoc] at read later ⊢
    simp only [items?, read, Option.bind_eq_bind, Option.bind_some]
    rw [skipBlanks_cons_of_not (by decide)]
    simp only [items?_congr fuel (skipBlanks_break_append style _ _), later, Option.bind_some]

/-- A written key is read back together with the value behind the colon. -/
theorem entries?_writeEntry {style : Style} {depth fuel : Nat} {entry : String × Document}
    {after : List Char} (readable : ReadBack style entry.2) (ends : EndsNumber after)
    (enough : 2 * (writeEntry style depth entry).length ≤ fuel) :
    entries? (fuel + 1) (writeEntry style depth entry ++ after) =
      match skipBlanks after with
      | '\x7d' :: after => some ([(some entry.1, entry.2)], after)
      | ',' :: after => do
        let (more, after) ← entries? fuel after
        some ((some entry.1, entry.2) :: more, after)
      | _ => none := by
  obtain ⟨key, value⟩ := entry
  obtain ⟨gap, colon, blanks⟩ := exists_colon style
  simp only [writeEntry, quote, List.length_cons, List.length_append] at enough
  have read := readable depth fuel after ends (by dsimp only; omega)
  simp only [writeEntry, quote, colon, List.cons_append, List.append_assoc, List.nil_append, entries?]
  rw [skipBlanks_cons_of_not (by decide)]
  simp only [quoted?_escaped, Option.bind_eq_bind, Option.bind_some]
  rw [skipBlanks_cons_of_not (by decide)]
  -- The gap behind the colon is skipped with the blanks before the value.
  change (value? fuel (gap ++ (write style depth value ++ after))).bind _ = _
  rw [value?_congr fuel (blanks _), read]
  rfl

/-- Written entries are read back up to the closing brace. -/
theorem entries?_writeEntries {style : Style} {first : String × Document}
    {rest : List (String × Document)} (depth outer fuel : Nat) (after : List Char)
    (each : ∀ entry ∈ first :: rest, ReadBack style entry.2)
    (enough : 2 * ((writeEntry style depth first).length +
      (writeEntries style depth rest).length) < fuel) :
    entries? fuel (writeEntry style depth first ++ writeEntries style depth rest ++
      style.break outer ++ '\x7d' :: after) =
        some ((first :: rest).map fun entry => (some entry.1, entry.2), after) := by
  induction rest generalizing first fuel with
  | nil =>
    obtain ⟨fuel, rfl⟩ : ∃ smaller, fuel = smaller + 1 := ⟨fuel - 1, by omega⟩
    -- The last entry is followed by the break before the brace.
    simp only [writeEntries, List.append_assoc, List.nil_append]
    rw [entries?_writeEntry (each first List.mem_cons_self)
      (endsNumber_break_append style outer after (by simp)) (by omega), skipBlanks_break_append,
      skipBlanks_cons_of_not (by decide)]
    rfl
  | cons second rest ih =>
    obtain ⟨fuel, rfl⟩ : ∃ smaller, fuel = smaller + 1 := ⟨fuel - 1, by omega⟩
    obtain ⟨readable, eachLater⟩ := List.forall_mem_cons.1 each
    simp only [writeEntries, List.length_cons, List.length_append] at enough
    -- Behind the comma the text is that of a table with one entry less.
    have later := @ih second fuel eachLater (by omega)
    simp only [writeEntries, List.cons_append, List.append_assoc] at later ⊢
    rw [entries?_writeEntry readable (endsNumber_cons _ (by simp)) (by omega),
      skipBlanks_cons_of_not (by decide)]
    simp only [entries?_congr fuel (skipBlanks_break_append style _ _), later, Option.bind_eq_bind,
      Option.bind_some]
    rfl

/-- A written document is not empty, so there is fuel for one step of the reader. -/
theorem readBack_of_step {style : Style} {document : Document} (plain : IsPlain document)
    (step : ∀ (depth fuel : Nat) (after : List Char), EndsNumber after →
      value? (fuel + 1) (write style depth document ++ after) = some (document, after)) :
    ReadBack style document := by
  intro depth fuel after ends enough
  -- The fuel is more than twice the length, which is positive.
  obtain ⟨c, text, shape, -⟩ := head_write style depth plain
  rw [shape, List.length_cons] at enough
  obtain ⟨fuel, rfl⟩ : ∃ smaller, fuel = smaller + 1 := ⟨fuel - 1, by omega⟩
  exact step depth fuel after ends

/-- A list that is not empty is read back if each of its items is. -/
theorem readBack_list {style : Style} {first : Document} {rest : List Document}
    (plain : IsPlain first) (each : ∀ item ∈ first :: rest, ReadBack style item) :
    ReadBack style (.list (first :: rest)) := by
  intro depth fuel after ends enough
  simp only [write, List.length_cons, List.length_append] at enough
  obtain ⟨fuel, rfl⟩ : ∃ smaller, fuel = smaller + 1 := ⟨fuel - 1, by omega⟩
  have read := items?_writeItems (depth + 1) depth fuel after each (by omega)
  obtain ⟨c, text, shape, mark, noBracket⟩ := head_write style (depth + 1) plain
  simp only [write, List.cons_append, List.append_assoc, List.nil_append] at read ⊢
  rw [value?, skipBlanks_cons_of_not (by decide)]
  simp only [items?_congr fuel (skipBlanks_break_append style _ _), skipBlanks_break_append, read]
  -- The list is not empty, because its first item does not begin with the bracket.
  rw [shape, List.cons_append, skipBlanks_cons_of_not mark]
  split
  · rename_i same
    exact absurd (List.cons.inj same).1 noBracket
  · rfl

/-- A table that is not empty is read back if the value of each entry is. -/
theorem readBack_table {style : Style} {first : String × Document} {rest : List (String × Document)}
    (each : ∀ entry ∈ first :: rest, ReadBack style entry.2) :
    ReadBack style (.table (first :: rest)) := by
  intro depth fuel after ends enough
  simp only [write, List.length_cons, List.length_append] at enough
  obtain ⟨fuel, rfl⟩ : ∃ smaller, fuel = smaller + 1 := ⟨fuel - 1, by omega⟩
  have read := entries?_writeEntries (depth + 1) depth fuel after each (by omega)
  simp only [write, List.cons_append, List.append_assoc, List.nil_append] at read ⊢
  rw [value?, skipBlanks_cons_of_not (by decide)]
  simp only [entries?_congr fuel (skipBlanks_break_append style _ _), skipBlanks_break_append, read]
  -- The table is not empty, because a key begins with a quote.
  simp only [writeEntry.eq_def, quote, List.cons_append]
  rw [skipBlanks_cons_of_not (by decide)]
  simp only [Option.map_some, tableDocument_of_keys]
  rfl

/-- A plain document is read back. -/
theorem readBack_of_isPlain {style : Style} {document : Document} (plain : IsPlain document) :
    ReadBack style document := by
  -- The parts of a document are smaller than the document.
  induction size : sizeOf document using Nat.strongRecOn generalizing document with
  | ind size ih =>
    subst size
    cases document with
    | list items =>
      cases items with
      | nil => exact readBack_of_step plain fun _ _ _ _ => rfl
      | cons first rest =>
        refine readBack_list plain.1 fun item within =>
          ih _ ?_ (isPlainWith_list_iff.1 plain item within) rfl
        have smaller := List.sizeOf_lt_of_mem within
        rw [Document.list.sizeOf_spec]
        omega
    | table entries =>
      cases entries with
      | nil => exact readBack_of_step plain fun _ _ _ _ => rfl
      | cons first rest =>
        refine readBack_table fun entry within =>
          ih _ ?_ (isPlainWith_table_iff.1 plain entry within) rfl
        have smaller := List.sizeOf_lt_of_mem within
        have value : sizeOf entry = 1 + sizeOf entry.1 + sizeOf entry.2 := by cases entry; rfl
        rw [Document.table.sizeOf_spec]
        omega
    | null => exact readBack_of_step plain fun _ _ _ _ => rfl
    | bool value => exact readBack_of_step plain fun _ _ _ _ => by cases value <;> rfl
    | integer value =>
      refine readBack_of_step plain fun depth fuel after ends => ?_
      -- A number is known by its first character, and ends where the text behind it allows.
      obtain ⟨c, rest, shape, head⟩ := head_ofInt value
      have read := number?_ofInt_append plain ends
      rw [shape, List.cons_append] at read
      rw [write, shape, List.cons_append, value?_of_number head, read]
    | text value =>
      refine readBack_of_step plain fun depth fuel after ends => ?_
      rw [write, quote, List.append_assoc, List.cons_append, value?,
        skipBlanks_cons_of_not (by decide)]
      simp [quoted?_escaped, textDocument]
    | float value =>
      refine readBack_of_step plain fun depth fuel after ends => ?_
      obtain ⟨c, rest, shape, head⟩ := head_of_number? plain
      have read := number?_append_of_some plain ends
      rw [shape, List.cons_append] at read
      rw [write, shape, List.cons_append, value?_of_number head, read]
    | unreadable => exact plain.elim

/-- A written document is read back from its text. -/
theorem parse?_write (style : Style) {document : Document} (plain : IsPlain document) :
    parse? (String.ofList (write style 0 document)) = some document := by
  have readable : ReadBack style document := readBack_of_isPlain plain
  -- The text is long enough to be the measure of its own depth.
  have read := readable 0 (2 * (write style 0 document).length + 2) [] (by simp [EndsNumber]) (by omega)
  rw [List.append_nil] at read
  simp [parse?, String.toList_ofList, read, skipBlanks]

end NixKeeper.Json
