import NixKeeper.Decimal.Integer
import NixKeeper.Proofs.Text.Blank

/-! Whole numbers written in decimal digits are read back. -/

namespace NixKeeper.Decimal

/-- A natural number is written with digits only. -/
theorem isDigit_of_mem_ofNat {n : Nat} {c : Char} (within : c ∈ ofNat n) : c.isDigit = true :=
  -- The base is ten, so the library's digits are those of this class.
  Nat.isDigit_of_mem_toDigits (by decide) (by decide) within

/-- An integer is written with characters of paths only. -/
theorem isPathChar_of_mem_ofInt {n : Int} {c : Char} (within : c ∈ ofInt n) :
    Text.isPathChar c = true := by
  -- Only a negative number has a character more than its digits.
  cases n with
  | ofNat n => exact Text.isPathChar_of_isDigit (isDigit_of_mem_ofNat within)
  | negSucc n =>
    rcases List.mem_cons.1 within with rfl | inDigits
    · rfl
    · exact Text.isPathChar_of_isDigit (isDigit_of_mem_ofNat inDigits)

/-- A natural number has at least one digit. -/
theorem ofNat_ne_nil (n : Nat) : ofNat n ≠ [] :=
  -- Zero is written as a digit as well.
  Nat.toDigits_ne_nil

/-- Only zero is written with a leading zero. -/
theorem eq_zero_of_head?_ofNat {n : Nat} (leading : (ofNat n).head? = some '0') : n = 0 := by
  -- The first digit stays the same while lower digits are appended.
  induction n using Nat.strongRecOn with
  | ind n ih =>
    unfold ofNat at leading ih
    rcases Nat.lt_or_ge n 10 with single | more
    · rw [Nat.toDigits_of_lt_base single] at leading
      simpa using leading
    · obtain ⟨c, rest, digits⟩ :=
        List.exists_cons_of_ne_nil (Nat.toDigits_ne_nil (n := n / 10) (b := 10))
      rw [Nat.toDigits_of_base_le (by decide) more, digits, List.cons_append, List.head?_cons,
        ← List.head?_cons (l := rest), ← digits] at leading
      have high := ih (n / 10) (by omega) leading
      omega

/-- The digits of a natural number are read back. -/
theorem readNat?_ofNat (n : Nat) : readNat? (ofNat n) = some n := by
  -- The reader asks for digits, and for one of them at least.
  have digits : (ofNat n).all Char.isDigit = true :=
    List.all_eq_true.2 fun _ within => isDigit_of_mem_ofNat within
  have nonempty : (ofNat n).isEmpty = false := by simpa using ofNat_ne_nil n
  rw [readNat?, digits, nonempty]
  simp [ofNat, Nat.ofDigitChars_ten_toDigits]

/-- Digits are read back where a plus sign may stand before them. -/
theorem readUnsigned?_ofNat (n : Nat) : readUnsigned? (ofNat n) = some n := by
  have read := readNat?_ofNat n
  -- The first character is a digit, so it is no plus sign.
  obtain ⟨c, rest, digits⟩ := List.exists_cons_of_ne_nil (ofNat_ne_nil n)
  have digit : c.isDigit = true := isDigit_of_mem_ofNat (digits ▸ List.mem_cons_self)
  rw [digits] at read ⊢
  rw [readUnsigned?, read]
  rintro digits ⟨⟩
  exact absurd digit (by decide)

/-- A written integer is read back. -/
theorem readSigned?_ofInt (n : Int) : readSigned? (ofInt n) = some n := by
  cases n with
  | ofNat n =>
    have read := readUnsigned?_ofNat n
    -- The first character is a digit, so it is no minus sign.
    obtain ⟨c, rest, digits⟩ := List.exists_cons_of_ne_nil (ofNat_ne_nil n)
    have digit : c.isDigit = true := isDigit_of_mem_ofNat (digits ▸ List.mem_cons_self)
    rw [ofInt]
    rw [digits] at read ⊢
    rw [readSigned?, read]
    · rfl
    · rintro digits ⟨⟩
      exact absurd digit (by decide)
  | negSucc n =>
    rw [ofInt, readSigned?, readNat?_ofNat]
    rfl

/-- A written integer of sixty-four bits is read back. -/
theorem readInt64?_ofInt (n : Int64) : readInt64? (ofInt n.toInt) = some n := by
  -- The range check passes, because the number comes out of sixty-four bits.
  have fits := And.intro n.minValue_le_toInt n.toInt_le
  rw [readInt64?, readSigned?_ofInt, Option.bind_some, if_pos fits, Int64.ofInt_toInt]

end NixKeeper.Decimal
