import NixKeeper.Decimal.Shortest
import NixKeeper.Proofs.Decimal.Integer
import NixKeeper.Proofs.Text.Blank

/-! The characters of floating-point numbers in decimal. -/

namespace NixKeeper.Binary64

/-- Digits with a point among them have only characters of paths. -/
theorem isPathChar_of_mem_positionalText {keepsPoint : Bool} {digits : List Char} {power : Int}
    (areDigits : ∀ c ∈ digits, c.isDigit = true) {c : Char}
    (within : c ∈ positionalText keepsPoint digits power) : Text.isPathChar c = true := by
  -- All that is written are digits, zeros and a point.
  have ofDigits (inDigits : c ∈ digits) : Text.isPathChar c = true :=
    Text.isPathChar_of_isDigit (areDigits c inDigits)
  have ofZeros {count : Nat} (inZeros : c ∈ List.replicate count '0') : Text.isPathChar c = true :=
    List.eq_of_mem_replicate inZeros ▸ rfl
  rw [positionalText] at within
  split at within
  · -- The zeros that scale whole digits may be followed by a point and another zero.
    simp only [List.mem_append, or_assoc] at within
    rcases within with inDigits | inZeros | inEnding
    · exact ofDigits inDigits
    · exact ofZeros inZeros
    · have ending : c = '.' ∨ c = '0' := by
        split at inEnding
        · simpa using inEnding
        · simp at inEnding
      rcases ending with rfl | rfl <;> rfl
  · dsimp only at within
    split at within
    · rw [List.mem_append, List.mem_cons] at within
      rcases within with inWhole | rfl | inFraction
      · exact ofDigits (List.mem_of_mem_take inWhole)
      · rfl
      · exact ofDigits (List.mem_of_mem_drop inFraction)
    · simp only [List.mem_append, List.mem_cons, List.not_mem_nil, or_false, or_assoc] at within
      rcases within with rfl | rfl | inZeros | inDigits
      · rfl
      · rfl
      · exact ofZeros inZeros
      · exact ofDigits inDigits

/-- A number in the plain layout has only characters of paths. -/
theorem isPathChar_of_mem_render_plain {x : Binary64} {c : Char} (within : c ∈ x.render plain) :
    Text.isPathChar c = true := by
  -- A number is a fixed word or digits, perhaps behind a minus sign.
  have ofWord {word : List Char} (inWord : c ∈ word) (plain : word.all Text.isPathChar = true) :
      Text.isPathChar c = true :=
    List.all_eq_true.1 plain c inWord
  rw [render] at within
  split at within
  · exact ofWord within (by decide)
  · have inBody (inBody : c ∈ if x.isInfinite then "inf".toList else if x.isZero then
        (if plain.keepsPoint then "0.0".toList else ['0']) else x.digitsText plain) :
        Text.isPathChar c = true := by
      split at inBody
      · exact ofWord inBody (by decide)
      · split at inBody
        · exact ofWord inBody (by decide)
        · exact isPathChar_of_mem_positionalText (fun d => Decimal.isDigit_of_mem_ofNat) inBody
    dsimp only at within
    split at within
    · rcases List.mem_cons.1 within with rfl | later
      · rfl
      · exact inBody later
    · exact inBody within

end NixKeeper.Binary64
