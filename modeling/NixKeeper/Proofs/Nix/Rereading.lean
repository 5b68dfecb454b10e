import NixKeeper.Proofs.Nix.Reading

/-!
What has been read from a literal is written so that it is read again.

A text between quotes may hold backslashes, also in lists. Each quote in it has a backslash before it, so
taking the backslash away when it is read, and putting it back when it is written, loses nothing.
-/

namespace NixKeeper.Nix

/-- What stands between the quotes of a text: it is written as it was, and delimited again. -/
structure IsQuotedInside (inside : List Char) : Prop where
  head : inside.head? ≠ some '"'
  escape_unescape : escape (unescape inside) = inside
  quotedTail_append : ∀ after, quotedTail (inside ++ '"' :: after) = some (inside, after)

namespace IsQuotedInside

variable {inside : List Char} {c : Char}

/-- Nothing stands between the quotes of an empty text. -/
theorem nil : IsQuotedInside [] :=
  -- Nothing is inside the quotes.
  ⟨by simp, rfl, fun _ => rfl⟩

/-- A character that is neither a quote nor a backslash may stand before what is between quotes. -/
theorem cons (isInside : IsQuotedInside inside) (noQuote : c ≠ '"') (noBackslash : c ≠ '\\') :
    IsQuotedInside (c :: inside) where
  head := by simpa using noQuote
  escape_unescape := by
    -- Neither reading nor writing does anything about such a character.
    rw [unescape_cons isInside.head, escape_cons_of_ne noQuote, isInside.escape_unescape]
  quotedTail_append after := by
    rw [List.cons_append, quotedTail, isInside.quotedTail_append]
    · rfl
    · exact noQuote
    · exact fun same => absurd same noBackslash
    · exact fun _ _ same => absurd same noBackslash

/-- A backslash and a character may stand before what is between quotes, unless the line ends there. -/
theorem pair (isInside : IsQuotedInside inside) (sameLine : c ≠ '\n') :
    IsQuotedInside ('\\' :: c :: inside) where
  head := by simp
  escape_unescape := by
    by_cases quote : c = '"'
    · rw [quote, unescape, escape_quote_cons, isInside.escape_unescape]
    · -- The backslash stands for itself, and so does the character behind it.
      have plain : (c :: inside).head? ≠ some '"' := by simpa using quote
      rw [unescape_cons plain, unescape_cons isInside.head, escape_cons_of_ne (by decide),
        escape_cons_of_ne quote, isInside.escape_unescape]
  quotedTail_append after := by
    rw [List.cons_append, List.cons_append, quotedTail, if_neg sameLine,
      isInside.quotedTail_append]
    rfl

/-- What was between quotes is delimited again when it is written. -/
theorem isEnclosed (isInside : IsQuotedInside inside) : IsEnclosed (unescape inside) := by
  intro after
  -- Escaping again gives the inside that was read.
  rw [isInside.escape_unescape, isInside.quotedTail_append]

end IsQuotedInside

/-- Whatever is found before a quote can stand between quotes. -/
theorem isQuotedInside_of_quotedTail {text inside after : List Char}
    (found : quotedTail text = some (inside, after)) : IsQuotedInside inside := by
  -- One case for each step of the search: the quote, a pair, or any other character.
  fun_induction quotedTail text generalizing inside with
  | case1 => cases found
  | case2 rest =>
    obtain ⟨rfl, -⟩ := Prod.mk.inj (Option.some.inj found)
    exact .nil
  | case3 => cases found
  | case4 => cases found
  | case5 c rest sameLine ih =>
    obtain ⟨⟨front, behind⟩, later, same⟩ := Option.map_eq_some_iff.1 found
    obtain ⟨rfl, rfl⟩ := Prod.mk.inj same
    exact (ih later).pair sameLine
  | case6 c rest noQuote noEnd noPair ih =>
    obtain ⟨⟨front, behind⟩, later, same⟩ := Option.map_eq_some_iff.1 found
    obtain ⟨rfl, rfl⟩ := Prod.mk.inj same
    refine (ih later).cons noQuote ?_
    rintro rfl
    -- A backslash with nothing behind it closes nothing, and any other one begins a pair.
    cases rest with
    | nil => exact noEnd rfl rfl
    | cons d rest => exact noPair d rest rfl rfl

/-- What begins with quotes ends with the first quote that nothing protects. -/
theorem quotedTail_of_quoted? {c : Char} {rest inside after : List Char}
    (begins : quoted? (c :: rest) = some (inside, after)) :
    quotedTail rest = some (inside, after) := by
  by_cases quote : c = '"'
  -- Only a quote begins an item.
  · rw [quote] at begins
    exact begins
  · simp [quoted?, quote] at begins

/-- The items that are read from a list are delimited again when they are written. -/
theorem isEnclosed_of_itemsFrom? {text : List Char} {skip : Nat} {items : List String}
    (read : itemsFrom? skip text = some items) : ∀ item ∈ items, IsEnclosed item.toList := by
  -- A text is read as a whole, and its characters are then skipped one by one.
  induction text generalizing skip items with
  | nil =>
    have none : items = [] := by
      cases skip <;> exact (Option.some.inj read).symm
    simp [none]
  | cons c rest ih =>
    cases skip with
    | succ skip => exact ih read
    | zero =>
      rw [itemsFrom?] at read
      split at read
      · rename_i inside after begins
        obtain ⟨others, later, rfl⟩ := Option.map_eq_some_iff.1 read
        have inQuotes := isQuotedInside_of_quotedTail (quotedTail_of_quoted? begins)
        refine List.forall_mem_cons.2 ⟨?_, ih later⟩
        rw [String.toList_ofList]
        exact inQuotes.isEnclosed
      · split at read
        · exact ih read
        · cases read

/-- The items of a list that is read are delimited again when they are written. -/
theorem isEnclosed_of_parseList? {raw : List Char} {items : List String}
    (read : parseList? raw = some items) : ∀ item ∈ items, IsEnclosed item.toList := by
  obtain ⟨inside, -, within⟩ := Option.bind_eq_some_iff.1 read
  -- The items were read from between brackets.
  exact isEnclosed_of_itemsFrom? within

/-- What is read as a list literal is read as a list. -/
theorem parseList?_of_parse? {raw : List Char} {items : List String}
    (read : parse? raw = some (.list items)) : parseList? (Text.trim raw) = some items := by
  -- No other kind of literal is a list, so all that is tried before has failed.
  simp only [parse?] at read
  split at read
  · cases read
  split at read
  · cases read
  split at read
  · cases read
  · cases read
  split at read
  · obtain ⟨found, inBrackets, same⟩ := Option.map_eq_some_iff.1 read
    cases same
    exact inBrackets
  · obtain ⟨found, -, other⟩ := Option.map_eq_some_iff.1 read
    cases other

/-- The lists that are read back are those whose texts are delimited by their quotes. -/
theorem parse?_format_list_iff {items : List String} :
    parse? (format (.list items)) = some (.list items) ↔ ∀ item ∈ items, IsEnclosed item.toList := by
  -- Being read back means that each item ends where it was written to end.
  constructor
  · intro read
    exact isEnclosed_of_parseList? (parseList?_of_parse? read)
  · intro enclosed
    exact parse?_format_list (parseList?_formatList_of_isEnclosed enclosed)

/--
Literals are read back as they are written, and what is read from any text is written so that it is
read again.

A text may hold any characters, and a list any texts without backslashes. The backslashes of a list
that is read are no exception: each of them protects what follows, or stands for itself.
-/
theorem parse?_format_settles :
    (∀ literal, IsReadable literal → parse? (format literal) = some literal) ∧
      ∀ raw literal, parse? raw = some literal → (∀ value, literal ≠ .float value) →
        parse? (format literal) = some literal := by
  refine ⟨fun literal => parse?_format, fun raw literal read noFloat => ?_⟩
  -- Only the items of a list need more than their kind to be read back.
  cases literal with
  | float value => exact absurd rfl (noFloat value)
  | list items =>
    exact parse?_format_list_iff.2 (isEnclosed_of_parseList? (parseList?_of_parse? read))
  | bool value => exact parse?_format trivial
  | int value => exact parse?_format trivial
  | text value => exact parse?_format trivial

/-- A text with all that is special in it, and a list whose texts hold backslashes. -/
theorem parse?_format_settles_special :
    parse? (format (.text "a\"b\\\n")) = some (.text "a\"b\\\n") ∧
      parse? "[ \"a\\\"b\" \"c\\\\\" ]".toList = some (.list ["a\"b", "c\\\\"]) ∧
      parse? (format (.list ["a\"b", "c\\\\"])) = some (.list ["a\"b", "c\\\\"]) := by
  -- The list that was read has escaped pairs, so only the second half applies to it.
  have read : parse? "[ \"a\\\"b\" \"c\\\\\" ]".toList = some (.list ["a\"b", "c\\\\"]) := by
    decide
  exact ⟨parse?_format_settles.1 (.text "a\"b\\\n") trivial, read,
    parse?_format_settles.2 _ _ read fun _ other => nomatch other⟩

end NixKeeper.Nix
