import Mathlib.Data.List.Infix
import NixKeeper.Nix.Literal
import NixKeeper.Proofs.Text.Search

/-! Literals of the Nix language: which words stand in what is written. -/

namespace NixKeeper.Nix

/-- A quote is escaped by a backslash. -/
theorem escape_quote_cons (rest : List Char) : escape ('"' :: rest) = '\\' :: '"' :: escape rest :=
  rfl

/-- Every other character stands for itself. -/
theorem escape_cons_of_ne {c : Char} (other : c ≠ '"') (rest : List Char) :
    escape (c :: rest) = c :: escape rest := by
  simp [escape, other]

/-- A text without quotes is left as it is. -/
theorem escape_of_not_mem {text : List Char} (noQuote : '"' ∉ text) : escape text = text := by
  induction text with
  | nil => rfl
  | cons c rest ih =>
    obtain ⟨other, later⟩ := not_or.1 (mt List.mem_cons.2 noQuote)
    rw [escape_cons_of_ne (Ne.symm other), ih later]

/-- A quoted text is not empty. -/
theorem quote_ne_nil (text : List Char) : quote text ≠ [] :=
  -- The first character is the quote.
  List.cons_ne_nil _ _

/-- A quoted text ends with a quote. -/
theorem getLast?_quote (text : List Char) : (quote text).getLast? = some '"' :=
  List.getLast?_concat

/-- A word without quotes and backslashes begins an escaped text only if it begins the text. -/
theorem prefix_of_prefix_escape {word text : List Char} (noQuote : '"' ∉ word)
    (noBackslash : '\\' ∉ word) (begins : word <+: escape text) : word <+: text := by
  -- The word is used up along with the text.
  induction text generalizing word with
  | nil => exact begins
  | cons c rest ih =>
    by_cases quote : c = '"'
    · subst quote
      rcases List.prefix_cons_iff.1 begins with rfl | ⟨tail, rfl, -⟩
      · exact List.nil_prefix
      · simp at noBackslash
    · rw [escape_cons_of_ne quote] at begins
      rcases List.prefix_cons_iff.1 begins with rfl | ⟨tail, rfl, later⟩
      · exact List.nil_prefix
      · have still := ih (fun within => noQuote (List.mem_cons_of_mem _ within))
          (fun within => noBackslash (List.mem_cons_of_mem _ within)) later
        exact List.cons_prefix_cons.2 ⟨rfl, still⟩

/-- A word without quotes and backslashes stands in an escaped text only if it stands in the text. -/
theorem infix_of_infix_escape {word text : List Char} (noQuote : '"' ∉ word)
    (noBackslash : '\\' ∉ word) (within : word <:+: escape text) : word <:+: text := by
  induction text with
  | nil => exact within
  | cons c rest ih =>
    -- Where a quote is escaped the word can begin neither with the backslash nor with the quote.
    by_cases quote : c = '"'
    · subst quote
      rw [escape_quote_cons, Text.infix_cons_iff_of_not_mem noBackslash,
        Text.infix_cons_iff_of_not_mem noQuote] at within
      exact List.infix_cons (ih within)
    · have atHead : word <+: escape (c :: rest) → word <+: c :: rest :=
        prefix_of_prefix_escape noQuote noBackslash
      rw [escape_cons_of_ne quote] at within atHead
      rcases List.infix_cons_iff.1 within with begins | later
      · exact (atHead begins).isInfix
      · exact List.infix_cons (ih later)

/-- A word without quotes and backslashes stands between quotes only if it stands in the text. -/
theorem infix_of_infix_quote_append {word text after : List Char} (noQuote : '"' ∉ word)
    (noBackslash : '\\' ∉ word) (within : word <:+: quote text ++ after) :
    word <:+: text ∨ word <:+: after := by
  have shape : quote text ++ after = '"' :: (escape text ++ '"' :: after) := by simp [quote]
  -- The word has no quote, so it lies on one side of each of the two.
  rw [shape, Text.infix_cons_iff_of_not_mem noQuote, Text.infix_append_cons_iff noQuote] at within
  exact within.imp_left (infix_of_infix_escape noQuote noBackslash)

/-- A character between quotes stands in the text, unless it is a quote or a backslash. -/
theorem mem_of_mem_quote {c : Char} {text : List Char} (noQuote : c ≠ '"') (noBackslash : c ≠ '\\')
    (within : c ∈ quote text) : c ∈ text := by
  -- A character is a word of one letter, with nothing behind the quotes here.
  have word : [c] <:+: quote text ++ [] := by simpa [List.singleton_infix_iff] using within
  rcases infix_of_infix_quote_append (by simpa using noQuote.symm) (by simpa using noBackslash.symm)
    word with inText | nothing
  · exact (List.singleton_infix_iff c text).1 inText
  · simp at nothing

/-- A word stands among quoted texts only if it stands in one of them, or behind them all. -/
theorem infix_of_infix_join_quote {word after : List Char} {items : List String}
    (noQuote : '"' ∉ word) (noBackslash : '\\' ∉ word) (noSpace : ¬ word <:+: [' '])
    (within : word <:+: Text.join [' '] (items.map fun item => quote item.toList) ++ after) :
    (∃ item ∈ items, word <:+: item.toList) ∨ word <:+: after := by
  -- Every text but the last has a space and a quote behind it.
  induction items with
  | nil => exact .inr (by simpa [Text.join] using within)
  | cons item rest ih =>
    cases rest with
    | nil =>
      have single : Text.join [' '] [quote item.toList] = quote item.toList := by simp [Text.join]
      rw [List.map_singleton, single] at within
      refine (infix_of_infix_quote_append noQuote noBackslash within).imp_left fun inItem => ?_
      exact ⟨item, List.mem_singleton_self item, inItem⟩
    | cons next rest =>
      obtain ⟨tail, joined⟩ : ∃ tail, Text.join [' ']
          ((next :: rest).map fun item => quote item.toList) ++ after = '"' :: tail := by
        cases rest <;> exact ⟨_, rfl⟩
      have shape : Text.join [' '] ((item :: next :: rest).map fun item => quote item.toList) ++
          after = quote item.toList ++ ([' '] ++ '"' :: tail) := by
        rw [← joined]
        simp [Text.join]
      rw [shape] at within
      rw [joined] at ih
      rcases infix_of_infix_quote_append noQuote noBackslash within with inItem | later
      · exact .inl ⟨item, List.mem_cons_self, inItem⟩
      · -- The space between two texts stands before the quote of the second one.
        rw [Text.infix_append_cons_iff noQuote, or_iff_right noSpace] at later
        rcases ih (List.infix_cons later) with ⟨other, among, inOther⟩ | ending
        · exact .inl ⟨other, List.mem_cons_of_mem _ among, inOther⟩
        · exact .inr ending

/-- A word stands in a written list only if it stands in one of its texts. -/
theorem infix_of_infix_formatList {word : List Char} {items : List String} (noQuote : '"' ∉ word)
    (noBackslash : '\\' ∉ word) (visible : ¬ word ⊆ "[ ]".toList)
    (within : word <:+: formatList items) : ∃ item ∈ items, word <:+: item.toList := by
  cases items with
  | nil => exact absurd within.subset visible
  | cons item rest =>
    have shape : formatList (item :: rest) = "[ ".toList ++
        (Text.join [' '] ((item :: rest).map fun item => quote item.toList) ++ " ]".toList) := by
      simp [formatList]
    obtain ⟨tail, joined⟩ : ∃ tail, Text.join [' ']
        ((item :: rest).map fun item => quote item.toList) ++ " ]".toList = '"' :: tail := by
      cases rest <;> exact ⟨_, rfl⟩
    -- What surrounds the texts are brackets and spaces, which are not enough for the word.
    have noSpace : ¬ word <:+: [' '] := fun alone =>
      visible fun c inWord => by simp [List.mem_singleton.1 (alone.subset inWord)]
    have noBracket : ¬ word <:+: "[ ".toList := fun alone =>
      visible (List.Subset.trans alone.subset (by simp))
    have noEnding : ¬ word <:+: " ]".toList := fun alone =>
      visible (List.Subset.trans alone.subset (by simp))
    rw [shape, joined, Text.infix_append_cons_iff noQuote, or_iff_right noBracket] at within
    have inQuotes := List.infix_cons (a := '"') within
    rw [← joined] at inQuotes
    rcases infix_of_infix_join_quote noQuote noBackslash noSpace inQuotes with found | ending
    · exact found
    · exact absurd ending noEnding

/-- A character of a written list stands in one of its texts, unless it is one of the list's own signs. -/
theorem mem_of_mem_formatList {c : Char} {items : List String} (foreign : c ∉ ['"', '\\', '[', ' ', ']'])
    (within : c ∈ formatList items) : ∃ item ∈ items, c ∈ item.toList := by
  -- A character is a word of one letter.
  simp only [List.mem_cons, List.not_mem_nil, or_false, not_or] at foreign
  obtain ⟨noQuote, noBackslash, noOpening, noSpace, noClosing⟩ := foreign
  have word : [c] <:+: formatList items := (List.singleton_infix_iff c _).2 within
  have visible : ¬ [c] ⊆ "[ ]".toList := by simp [noOpening, noSpace, noClosing]
  obtain ⟨item, among, inItem⟩ := infix_of_infix_formatList (by simpa using Ne.symm noQuote)
    (by simpa using Ne.symm noBackslash) visible word
  exact ⟨item, among, (List.singleton_infix_iff c _).1 inItem⟩

end NixKeeper.Nix
