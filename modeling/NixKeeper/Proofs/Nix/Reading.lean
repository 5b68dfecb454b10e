import NixKeeper.Nix.Literal
import NixKeeper.Proofs.Decimal.Integer
import NixKeeper.Proofs.Nix.Literal
import NixKeeper.Proofs.Text.Blank
import NixKeeper.Proofs.Text.Search

/-! Literals of the Nix language are read back from what is written for them. -/

namespace NixKeeper.Nix

/-- An escaped text does not begin with a quote. -/
theorem head_escape_ne_quote (text : List Char) : (escape text).head? ≠ some '"' := by
  cases text with
  | nil => decide
  | cons c rest =>
    -- A quote is escaped by a backslash, and anything else stands for itself.
    by_cases quote : c = '"'
    · rw [quote, escape_quote_cons]
      simp
    · rw [escape_cons_of_ne quote]
      simpa using quote

/-- A character that no quote follows stands for itself. -/
theorem unescape_cons {c : Char} {rest : List Char} (plain : rest.head? ≠ some '"') :
    unescape (c :: rest) = c :: unescape rest := by
  rw [unescape]
  rintro after - rfl
  exact plain rfl

/-- An escaped text is read back. -/
theorem unescape_escape (text : List Char) : unescape (escape text) = text := by
  -- A backslash only joins with a quote behind it, and an escaped text never begins with one.
  induction text with
  | nil => rfl
  | cons c rest ih =>
    by_cases quote : c = '"'
    · rw [quote, escape_quote_cons, unescape, ih]
    · rw [escape_cons_of_ne quote, unescape_cons (head_escape_ne_quote rest), ih]

/-- Every quote in an escaped text has a backslash before it. -/
theorem hasBareQuote_escape (escaped : Bool) (text : List Char) :
    hasBareQuote escaped (escape text) = false := by
  -- Whether the character before was a backslash changes along the text.
  induction text generalizing escaped with
  | nil => rfl
  | cons c rest ih =>
    by_cases quote : c = '"'
    · rw [quote, escape_quote_cons, hasBareQuote, hasBareQuote, ih]
      rfl
    · rw [escape_cons_of_ne quote, hasBareQuote, ih]
      simp [quote]

/-- A quoted text is trimmed. -/
theorem trim_quote (text : List Char) : Text.trim (quote text) = quote text := by
  -- Both ends are quotes, which are not blank.
  refine Text.trim_eq_self_iff.2 ⟨?_, Text.forall_getLast?_of_eq (getLast?_quote text) rfl⟩
  rintro c ⟨⟩
  rfl

/-- A quoted text is read back. -/
theorem unquote?_quote (text : List Char) : unquote? (quote text) = some (String.ofList text) := by
  have inside : Text.between? ['"'] ['"'] (quote text) = some (escape text) :=
    -- Between the outer quotes none stands bare, and escaping is undone.
    Text.between?_append ['"'] (escape text) ['"']
  rw [unquote?, trim_quote, inside, Option.bind_some, hasBareQuote_escape, if_neg Bool.false_ne_true,
    unescape_escape]

/-- An escaped text is delimited by its quotes, wherever it stands. -/
def IsEnclosed (text : List Char) : Prop :=
  ∀ after, quotedTail (escape text ++ '"' :: after) = some (escape text, after)

/-- A text without backslashes is delimited by its quotes. -/
theorem isEnclosed_of_not_mem {text : List Char} (noBackslash : '\\' ∉ text) : IsEnclosed text := by
  intro after
  induction text with
  | nil => rfl
  | cons c rest ih =>
    -- A backslash of the text itself would hide the quote behind it.
    obtain ⟨other, later⟩ := not_or.1 (mt List.mem_cons.2 noBackslash)
    by_cases quote : c = '"'
    · rw [quote, escape_quote_cons, List.cons_append, List.cons_append, quotedTail, ih later]
      rfl
    · rw [escape_cons_of_ne quote, List.cons_append, quotedTail, ih later]
      · rfl
      · exact fun same => quote same
      · exact fun same => absurd same.symm other
      · exact fun _ _ same => absurd same.symm other

/-- The characters of a text in a list are passed over. -/
theorem itemsFrom?_append (passed rest : List Char) :
    itemsFrom? passed.length (passed ++ rest) = itemsFrom? 0 rest := by
  -- The counter only skips what was passed.
  induction passed with
  | nil => rfl
  | cons c passed ih => rw [List.length_cons, List.cons_append, itemsFrom?, ih]

/-- A quoted text that its quotes delimit is an item of a list. -/
theorem itemsFrom?_quote_append {item : String} (after : List Char)
    (enclosed : IsEnclosed item.toList) :
    itemsFrom? 0 (quote item.toList ++ after) = (itemsFrom? 0 after).map (item :: ·) := by
  have shape : quote item.toList ++ after = '"' :: (escape item.toList ++ '"' :: after) := by
    simp [quote]
  have found : quoted? ('"' :: (escape item.toList ++ '"' :: after)) =
      some (escape item.toList, after) := enclosed after
  -- The opening quote is counted already, the closing one is still to come.
  have count : (escape item.toList ++ '"' :: after).length - after.length =
      (escape item.toList ++ ['"']).length := by
    simp only [List.length_append, List.length_cons, List.length_nil]
    omega
  have passed := itemsFrom?_append (escape item.toList ++ ['"']) after
  rw [List.append_assoc, List.singleton_append] at passed
  rw [shape, itemsFrom?, found]
  simp only [count, passed, unescape_escape, String.ofList_toList]

/-- A blank between the items of a list says nothing. -/
theorem itemsFrom?_space (after : List Char) : itemsFrom? 0 (' ' :: after) = itemsFrom? 0 after :=
  -- A space between items is passed over.
  rfl

/-- Quoted texts with spaces between them are the items of a list. -/
theorem itemsFrom?_join_quote {items : List String}
    (enclosed : ∀ item ∈ items, IsEnclosed item.toList) :
    itemsFrom? 0 (Text.join [' '] (items.map fun item => quote item.toList) ++ [' ']) =
      some items := by
  induction items with
  | nil => rfl
  | cons item rest ih =>
    obtain ⟨atHead, later⟩ := List.forall_mem_cons.1 enclosed
    -- The last text has no separator behind it.
    cases rest with
    | nil =>
      have single : Text.join [' '] [quote item.toList] = quote item.toList := by simp [Text.join]
      rw [List.map_singleton, single, itemsFrom?_quote_append [' '] atHead]
      rfl
    | cons next rest =>
      have shape : Text.join [' '] ((item :: next :: rest).map fun item => quote item.toList) =
          quote item.toList ++
            ' ' :: Text.join [' '] ((next :: rest).map fun item => quote item.toList) := by
        simp [Text.join]
      rw [shape, List.append_assoc, itemsFrom?_quote_append _ atHead, List.cons_append,
        itemsFrom?_space, ih later]
      rfl

/-- A written list begins with a bracket. -/
theorem head?_formatList (items : List String) : (formatList items).head? = some '[' := by
  cases items <;> rfl

/-- A written list ends with a bracket. -/
theorem getLast?_formatList (items : List String) : (formatList items).getLast? = some ']' := by
  cases items with
  | nil => rfl
  | cons item rest =>
    -- The bracket stands behind a space, whatever the items are.
    have ending : " ]".toList = [' '] ++ [']'] := rfl
    rw [formatList, List.isEmpty_cons, if_neg Bool.false_ne_true, ending, ← List.append_assoc,
      List.getLast?_concat]

/-- A written list is not empty. -/
theorem formatList_ne_nil (items : List String) : formatList items ≠ [] := by
  -- An empty list is written as brackets.
  cases items <;> exact List.cons_ne_nil _ _

/-- A written list is trimmed. -/
theorem trim_formatList (items : List String) : Text.trim (formatList items) = formatList items := by
  -- Both ends are brackets, which are not blank.
  refine Text.trim_eq_self_iff.2 ⟨?_, Text.forall_getLast?_of_eq (getLast?_formatList items) rfl⟩
  rw [head?_formatList]
  rintro c ⟨⟩
  rfl

/-- A written list of texts that their quotes delimit is read back. -/
theorem parseList?_formatList_of_isEnclosed {items : List String}
    (enclosed : ∀ item ∈ items, IsEnclosed item.toList) :
    parseList? (formatList items) = some items := by
  rw [parseList?, trim_formatList]
  cases items with
  | nil => decide
  | cons item rest =>
    -- Between the brackets each item has a space before it or behind it.
    have inside : formatList (item :: rest) = ['['] ++ (' ' ::
        (Text.join [' '] ((item :: rest).map fun item => quote item.toList) ++ [' '])) ++ [']'] := by
      simp [formatList]
    rw [inside, Text.between?_append, Option.bind_some, itemsFrom?_space,
      itemsFrom?_join_quote enclosed]

/-- A written list of texts without backslashes is read back. -/
theorem parseList?_formatList {items : List String}
    (noBackslash : ∀ item ∈ items, '\\' ∉ item.toList) :
    parseList? (formatList items) = some items :=
  -- Without a backslash an item ends at its closing quote.
  parseList?_formatList_of_isEnclosed fun item among => isEnclosed_of_not_mem (noBackslash item among)

/-- A text that begins with neither a digit nor a sign is no integer. -/
theorem readInt64?_cons {c : Char} (rest : List Char) (noDigit : c.isDigit = false)
    (noMinus : c ≠ '-') (noPlus : c ≠ '+') : Decimal.readInt64? (c :: rest) = none := by
  -- Without a sign the digits would have to begin at once.
  have unread : Decimal.readSigned? (c :: rest) = none := by
    rw [Decimal.readSigned?, Decimal.readUnsigned?, Decimal.readNat?]
    · simp [noDigit]
    · rintro after ⟨⟩
      exact noPlus rfl
    · rintro after ⟨⟩
      exact noMinus rfl
  rw [Decimal.readInt64?, unread, Option.bind_none]

/-- A text that begins with neither a digit nor a minus sign nor a point is no decimal number. -/
theorem readDecimal?_cons {c : Char} (rest : List Char) (noDigit : c.isDigit = false)
    (noMinus : c ≠ '-') (noPoint : c ≠ '.') : readDecimal? (c :: rest) = none := by
  -- Whatever the text before the point is, it begins with the given character.
  have apart : ¬ ['.'] <+: c :: rest := by
    rw [List.cons_prefix_cons]
    exact fun begins => noPoint begins.1.symm
  unfold readDecimal?
  split
  rename_i negative digits parts
  split at parts
  · rename_i same
    exact absurd (List.cons.inj same).1 noMinus
  · obtain ⟨-, rfl⟩ := Prod.mk.inj parts
    rw [Text.splitFirst_cons_of_not_begins apart]
    cases Text.splitFirst ['.'] rest with
    | none => rfl
    | some parts => simp [noDigit]

/-- A literal that is read back: no floating-point number, and no list with a backslash in it. -/
def IsReadable : Literal → Prop
  -- A number that is not whole may lose digits, and a backslash may be taken for an escape.
  | .float _ => False
  | .list items => ∀ item ∈ items, '\\' ∉ item.toList
  | _ => True

/-- The digits of an integer are no blanks, and neither is its sign. -/
theorem trim_ofInt (n : Int) : Text.trim (Decimal.ofInt n) = Decimal.ofInt n := by
  -- All characters are digits but for a leading minus sign.
  have shown : ∀ c ∈ Decimal.ofInt n, Text.isBlank c = false := by
    intro c within
    cases n with
    | ofNat n => exact Text.isBlank_of_isDigit (Decimal.isDigit_of_mem_ofNat within)
    | negSucc n =>
      rcases List.mem_cons.1 within with rfl | digit
      · rfl
      · exact Text.isBlank_of_isDigit (Decimal.isDigit_of_mem_ofNat digit)
  exact Text.trim_eq_self_iff.2
    ⟨fun c first => shown c (List.mem_of_mem_head? first),
      fun c last => shown c (List.mem_of_mem_getLast? last)⟩

/-- An integer begins with a digit or a minus sign. -/
theorem ofInt_ne_cons (n : Int) {c : Char} (rest : List Char) (noDigit : c.isDigit = false)
    (noMinus : c ≠ '-') : Decimal.ofInt n ≠ c :: rest := by
  intro written
  -- The sign decides what comes first.
  cases n with
  | ofNat n =>
    have digits : Decimal.ofNat n = c :: rest := written
    have digit := Decimal.isDigit_of_mem_ofNat (digits ▸ List.mem_cons_self)
    simp [digit] at noDigit
  | negSucc n => exact noMinus (List.cons.inj written).1.symm

/-- No blanks stand around a literal. -/
theorem trim_format {literal : Literal} (readable : IsReadable literal) :
    Text.trim (format literal) = format literal := by
  -- Each kind of literal begins and ends with characters that show.
  cases literal with
  | bool value => cases value <;> rfl
  | int value => exact trim_ofInt value.toInt
  | float value => exact absurd readable id
  | list items => exact trim_formatList items
  | text value => exact trim_quote value.toList

/-- A literal ends with a character that is no brace. -/
theorem exists_getLast?_format {literal : Literal} (readable : IsReadable literal) :
    ∃ c, (format literal).getLast? = some c ∧ c ≠ '{' := by
  -- Each kind of literal has its own last character.
  cases literal with
  | bool value => cases value <;> exact ⟨'e', by decide, by decide⟩
  | int value =>
    have digit (n : Nat) : ∃ c, (Decimal.ofNat n).getLast? = some c ∧ c ≠ '{' := by
      have last := List.getLast?_eq_some_getLast (Decimal.ofNat_ne_nil n)
      have digit := Decimal.isDigit_of_mem_ofNat (List.mem_of_mem_getLast? last)
      exact ⟨_, last, Text.ne_of_class digit rfl⟩
    rw [format]
    cases value.toInt with
    | ofNat n => exact digit n
    | negSucc n =>
      rw [Decimal.ofInt, List.getLast?_cons_of_ne_nil (Decimal.ofNat_ne_nil _)]
      exact digit (n + 1)
  | float value => exact absurd readable id
  | list items => exact ⟨']', getLast?_formatList items, by decide⟩
  | text value => exact ⟨'"', getLast?_quote value.toList, by decide⟩

/-- A list is read back as a literal if it is read back as a list. -/
theorem parse?_format_list {items : List String} (read : parseList? (formatList items) = some items) :
    parse? (format (.list items)) = some (.list items) := by
  -- The bracket rules out everything that is tried before a list.
  obtain ⟨rest, written⟩ : ∃ rest, formatList items = '[' :: rest :=
    List.head?_eq_some_iff.1 (head?_formatList items)
  have noInt := @readInt64?_cons '[' rest rfl (by decide) (by decide)
  have noDecimal := @readDecimal?_cons '[' rest rfl (by decide) (by decide)
  have trimmed := trim_formatList items
  rw [written] at read trimmed
  simp [parse?, format, written, trimmed, noInt, noDecimal, read]

/-- A literal is read back from what is written for it. -/
theorem parse?_format {literal : Literal} (readable : IsReadable literal) :
    parse? (format literal) = some literal := by
  cases literal with
  | bool value => cases value <;> rfl
  | int value =>
    -- The words are tried before the number, and are none.
    have noTrue : Decimal.ofInt value.toInt ≠ "true".toList :=
      ofInt_ne_cons value.toInt "rue".toList rfl (by decide)
    have noFalse : Decimal.ofInt value.toInt ≠ "false".toList :=
      ofInt_ne_cons value.toInt "alse".toList rfl (by decide)
    simp only [parse?, format, trim_ofInt, if_neg noTrue, if_neg noFalse, Decimal.readInt64?_ofInt]
  | float value => exact absurd readable id
  | list items => exact parse?_format_list (parseList?_formatList readable)
  | text value =>
    -- The first character is a quote, so none of the other kinds is read.
    obtain ⟨rest, written⟩ : ∃ rest, quote value.toList = '"' :: rest := ⟨_, rfl⟩
    have noInt := readInt64?_cons (c := '"') rest rfl (by decide) (by decide)
    have noDecimal := readDecimal?_cons (c := '"') rest rfl (by decide) (by decide)
    have read := unquote?_quote value.toList
    have trimmed := trim_quote value.toList
    rw [written] at read trimmed
    simp [parse?, format, written, trimmed, noInt, noDecimal, read]

end NixKeeper.Nix
