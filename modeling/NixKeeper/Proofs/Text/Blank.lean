import Mathlib.Data.List.Basic
import Mathlib.Data.List.TakeWhile
import NixKeeper.Text.Blank
import NixKeeper.Text.Name

/-! Laws of characters dropped at the ends of a text, and of texts that lose none. -/

namespace NixKeeper.Text

/-- A space is blank. -/
theorem isBlank_of_isSpace {c : Char} (space : isSpace c = true) : isBlank c = true := by
  -- The only spaces are the space itself and the tab.
  rw [isSpace, Bool.or_eq_true, beq_iff_eq, beq_iff_eq] at space
  rcases space with rfl | rfl <;> rfl

/-- What is left behind a stretch of characters of a class begins with none of them. -/
theorem takeWhile_dropWhile_self (p : Char → Bool) (text : List Char) :
    (text.dropWhile p).takeWhile p = [] := by
  rw [List.takeWhile_eq_nil_iff]
  -- What is left begins with a character that is not dropped.
  exact fun positive => by simpa using List.dropWhile_get_zero_not p text positive

/-- Characters of a class are dropped up to a text that begins with none of them. -/
theorem dropWhile_append_of_head {p : Char → Bool} (text : List Char) {c : Char} {rest : List Char}
    (other : p c = false) :
    (text ++ c :: rest).dropWhile p = text.dropWhile p ++ c :: rest := by
  rw [List.dropWhile_append]
  split
  · -- If all of the text is dropped, the dropping stops at the character behind it.
    rename_i nothing
    rw [List.isEmpty_iff.1 nothing, List.dropWhile_cons_of_neg (by simp [other]), List.nil_append]
  · rfl

/-- Characters of a class are taken up to a text that begins with none of them. -/
theorem takeWhile_append_of_head {p : Char → Bool} (text : List Char) {c : Char} {rest : List Char}
    (other : p c = false) : (text ++ c :: rest).takeWhile p = text.takeWhile p := by
  -- Even if all of the first text is taken, nothing behind it is.
  rw [List.takeWhile_append, List.takeWhile_cons_of_neg (by simp [other]), List.append_nil]
  split
  · rename_i whole
    exact ((List.takeWhile_prefix p).eq_of_length whole).symm
  · rfl

/-- A character that is not of the class is not dropped at the beginning. -/
theorem mem_dropWhile_of_mem {p : Char → Bool} {text : List Char} {c : Char} (within : c ∈ text)
    (other : p c = false) : c ∈ text.dropWhile p := by
  rw [← List.takeWhile_append_dropWhile (p := p) (l := text), List.mem_append] at within
  -- Only characters of the class are dropped.
  refine within.resolve_left fun dropped => ?_
  exact Bool.false_ne_true (other.symm.trans (List.mem_takeWhile_imp dropped))

/-- A character of a class is none that stands outside of it. -/
theorem ne_of_class {p : Char → Bool} {c other : Char} (member : p c = true)
    (outside : p other = false) : c ≠ other := by
  -- The class would have to hold and to fail of one character.
  rintro rfl
  exact Bool.false_ne_true (outside.symm.trans member)

/-- A text of characters of a class has none that stands outside of it. -/
theorem not_mem_of_class {p : Char → Bool} {text : List Char} {other : Char}
    (members : ∀ c ∈ text, p c = true) (outside : p other = false) : other ∉ text :=
  -- Every character of the text is in the class.
  fun within => ne_of_class (members other within) outside rfl

/-- What is dropped at the end of a text consists of characters of the class. -/
theorem exists_dropEndWhile_append (p : Char → Bool) (text : List Char) :
    ∃ ending, text = dropEndWhile p text ++ ending ∧ ∀ c ∈ ending, p c = true := by
  -- What is dropped is the front of the reversed text.
  refine ⟨(text.reverse.takeWhile p).reverse, ?_, fun c within => ?_⟩
  · rw [dropEndWhile, ← List.reverse_append, List.takeWhile_append_dropWhile, List.reverse_reverse]
  · exact List.mem_takeWhile_imp (List.mem_reverse.1 within)

/-- A text keeps its beginning exactly if it does not begin with a blank. -/
theorem trimStart_eq_self_iff {text : List Char} :
    trimStart text = text ↔ ∀ c ∈ text.head?, isBlank c = false := by
  cases text with
  | nil => simp [trimStart]
  | cons c rest =>
    cases blank : isBlank c with
    | false => simp [trimStart, blank]
    | true =>
      -- A text without its first character is shorter.
      have shorter := (List.dropWhile_suffix isBlank (l := rest)).length_le
      simp only [trimStart, List.dropWhile_cons_of_pos blank, List.head?_cons, Option.mem_some_iff,
        forall_eq', blank, Bool.true_eq_false, iff_false]
      intro same
      rw [same, List.length_cons] at shorter
      omega

/-- A text keeps its end exactly if it does not end with a blank. -/
theorem trimEnd_eq_self_iff {text : List Char} :
    trimEnd text = text ↔ ∀ c ∈ text.getLast?, isBlank c = false := by
  -- Trimming at the end is trimming the reversed text at its start.
  rw [trimEnd, dropEndWhile, List.reverse_eq_iff, ← List.head?_reverse]
  exact trimStart_eq_self_iff

/-- A text whose last character is not blank does not end with a blank. -/
theorem forall_getLast?_of_eq {text : List Char} {last : Char} (ending : text.getLast? = some last)
    (shown : isBlank last = false) : ∀ c ∈ text.getLast?, isBlank c = false := by
  rw [ending]
  -- There is only the one last character.
  rintro c ⟨⟩
  exact shown

/-- A text that does not end with a blank keeps its end when blanks before it are dropped. -/
theorem getLast?_trimStart {text : List Char} {c : Char} (last : text.getLast? = some c)
    (shown : isBlank c = false) : (trimStart text).getLast? = some c := by
  -- The last character shows, so the dropping stops before it at the latest.
  have within := List.mem_of_mem_getLast? last
  have nonempty := List.ne_nil_of_mem (mem_dropWhile_of_mem (p := isBlank) within shown)
  rw [← List.takeWhile_append_dropWhile (p := isBlank) (l := text),
    List.getLast?_append_of_ne_nil _ nonempty] at last
  exact last

/-- A text is trimmed exactly if neither of its ends is blank. -/
theorem trim_eq_self_iff {text : List Char} :
    trim text = text ↔
      (∀ c ∈ text.head?, isBlank c = false) ∧ ∀ c ∈ text.getLast?, isBlank c = false := by
  rw [← trimStart_eq_self_iff, ← trimEnd_eq_self_iff]
  constructor
  · intro trimmed
    -- Both steps leave a part of the text, and the last part is the whole.
    have short := (List.dropWhile_suffix isBlank (l := text)).length_le
    have shorter := (List.dropWhile_suffix isBlank (l := (trimStart text).reverse)).length_le
    have lengths := congrArg List.length trimmed
    simp only [trim, trimEnd, dropEndWhile, trimStart, List.length_reverse] at lengths shorter
    have start : trimStart text = text :=
      (List.dropWhile_suffix isBlank).eq_of_length_le (by omega)
    refine ⟨start, ?_⟩
    rwa [trim, start] at trimmed
  · rintro ⟨start, ending⟩
    rw [trim, start, ending]

/-- Only the second of two texts loses blanks if the first one does not end with any. -/
theorem trimEnd_append {first : List Char} (second : List Char)
    (shown : ∀ c ∈ first.getLast?, isBlank c = false) :
    trimEnd (first ++ second) = first ++ trimEnd second := by
  have kept : first.reverse.dropWhile isBlank = first.reverse :=
    trimStart_eq_self_iff.2 (by simpa using shown)
  rw [trimEnd, dropEndWhile, List.reverse_append, List.dropWhile_append, kept]
  -- Either all of the second text is dropped, and the first one keeps its end, or some is left.
  split
  · rename_i nothing
    rw [trimEnd, dropEndWhile, List.isEmpty_iff.1 nothing]
    simp
  · simp [trimEnd, dropEndWhile]

/-- No character of a name is blank. -/
theorem isBlank_of_isNameChar {c : Char} (named : isNameChar c = true) : isBlank c = false := by
  delta isNameChar Char.isAlphanum Char.isAlpha Char.isUpper Char.isLower Char.isDigit at named
  simp only [Bool.or_eq_true, Bool.and_eq_true, decide_eq_true_eq, beq_iff_eq, ge_iff_le,
    UInt32.le_iff_toNat_le] at named
  -- Letters and digits have codes between those of the space and of the next blank.
  have visible : 0x21 ≤ c.toNat ∧ c.toNat < 0x80 := by
    rcases named with (((bounds | bounds) | bounds) | rfl) | rfl
    all_goals first
      | decide
      | (simp at bounds; omega)
  simp only [isBlank, Bool.or_eq_false_iff, Bool.and_eq_false_iff, decide_eq_false_iff_not,
    beq_eq_false_iff_ne]
  omega

/-- No digit is blank. -/
theorem isBlank_of_isDigit {c : Char} (digit : c.isDigit = true) : isBlank c = false :=
  -- A digit is a character of a name.
  isBlank_of_isNameChar (by simp [isNameChar, Char.isAlphanum, digit])

/-- A digit may stand in a path. -/
theorem isPathChar_of_isDigit {c : Char} (digit : c.isDigit = true) : isPathChar c = true := by
  -- A digit is a character of a name, and so of a path.
  simp [isPathChar, isNameChar, Char.isAlphanum, digit]

/-- No character of a path is blank. -/
theorem isBlank_of_isPathChar {c : Char} (onPath : isPathChar c = true) : isBlank c = false := by
  rw [isPathChar, Bool.or_eq_true, beq_iff_eq] at onPath
  -- A path adds the point to the characters of a name.
  rcases onPath with named | rfl
  · exact isBlank_of_isNameChar named
  · rfl

end NixKeeper.Text
