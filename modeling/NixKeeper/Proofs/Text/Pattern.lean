import Mathlib.Data.List.Basic
import NixKeeper.Proofs.Text.Search
import NixKeeper.Text.Pattern

/-! What patterns match that never have to give a character back. -/

namespace NixKeeper.Text

/-- All characters of a class are taken if nothing goes on at one of them. -/
theorem matchMany?_eq {accepts : Char → Bool} {next : List Char → Option (List Char)}
    (stops : ∀ c rest, accepts c = true → next (c :: rest) = none) (text : List Char) :
    matchMany? accepts next text = next (text.dropWhile accepts) := by
  -- Giving characters back does not help, since nothing goes on where one of them stands.
  induction text with
  | nil => rfl
  | cons c rest ih =>
    rw [matchMany?, ih]
    cases accepted : accepts c with
    | false => rw [if_neg (by simp), List.dropWhile_cons_of_neg (by simp [accepted])]
    | true =>
      rw [if_pos rfl, List.dropWhile_cons_of_pos accepted, stops c rest accepted]
      cases next (rest.dropWhile accepts) <;> rfl

/-- The letters of a word are matched one by one. -/
theorem matchParts?_word (word : List Char) (parts : List Part) (text : List Char) :
    matchParts? (word.map (fun letter => .one (· == letter)) ++ parts) text =
      (word.isPrefixOf? text).bind (matchParts? parts) := by
  -- The word and the text are compared letter by letter, and both searches stop at the first difference.
  induction word generalizing text with
  | nil => rfl
  | cons letter word ih =>
    cases text with
    | nil => rfl
    | cons c rest =>
      have first :
          matchParts? ((letter :: word).map (fun letter => .one (· == letter)) ++ parts) (c :: rest) =
          if c == letter then
            matchParts? (word.map (fun letter => .one (· == letter)) ++ parts) rest else none := rfl
      rw [first, ih, List.isPrefixOf?]
      by_cases same : c = letter
      · subst same
        simp
      · simp [same, Ne.symm same]

/-- A word does not begin with a character other than its first one. -/
theorem matchParts?_word_of_ne {letter c : Char} (other : c ≠ letter) (word : List Char)
    (parts : List Part) (rest : List Char) :
    matchParts? ((letter :: word).map (fun letter => .one (· == letter)) ++ parts) (c :: rest) = none := by
  -- The first letter of the word is asked for first.
  rw [matchParts?_word, List.isPrefixOf?, if_neg (by simpa using other.symm)]
  rfl

end NixKeeper.Text
