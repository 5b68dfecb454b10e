import Mathlib.Data.List.Basic
import NixKeeper.Text.Utf8

/-! Which bytes the characters of a text are written with. -/

namespace NixKeeper.Text

/-- Texts one behind the other are written one behind the other. -/
theorem encode_append (first second : List Char) :
    encode (first ++ second) = encode first ++ encode second :=
  -- Encoding goes character by character.
  List.flatMap_append

/-- A character is written before the characters behind it. -/
theorem encode_cons (c : Char) (rest : List Char) :
    encode (c :: rest) = String.utf8EncodeChar c ++ encode rest :=
  -- Encoding goes character by character.
  List.flatMap_cons

/-- A character of ASCII is written as one byte. -/
theorem utf8EncodeChar_of_ascii {c : Char} (ascii : c.toNat < 128) :
    String.utf8EncodeChar c = [c.toUInt8] := by
  have size : c.utf8Size = 1 := by
    -- One byte is enough, and it is the character's number.
    rw [Char.utf8Size_eq_one_iff, UInt32.le_iff_toNat_le]
    exact Nat.le_of_lt_succ ascii
  exact String.utf8EncodeChar_eq_singleton size

/-- No byte of any other character is one of ASCII. -/
theorem le_of_mem_utf8EncodeChar {c : Char} {byte : UInt8} (wide : 128 ≤ c.toNat)
    (within : byte ∈ String.utf8EncodeChar c) : 128 ≤ byte.toNat := by
  have notAscii : ¬ c.val.toNat ≤ 127 := Nat.not_le.2 wide
  rw [String.utf8EncodeChar.eq_def] at within
  simp only [if_neg notAscii] at within
  -- The first byte has its two highest bits set, and any further byte has the highest one set.
  split at within
  · simp only [List.mem_cons, List.not_mem_nil, or_false] at within
    rcases within with rfl | rfl <;> simp <;> omega
  · split at within
    · simp only [List.mem_cons, List.not_mem_nil, or_false] at within
      rcases within with rfl | rfl | rfl <;> simp <;> omega
    · simp only [List.mem_cons, List.not_mem_nil, or_false] at within
      rcases within with rfl | rfl | rfl | rfl <;> simp <;> omega

/-- The byte of a character of ASCII is found in no other character. -/
theorem toUInt8_mem_utf8EncodeChar_iff {c other : Char} (ascii : other.toNat < 128) :
    other.toUInt8 ∈ String.utf8EncodeChar c ↔ c = other := by
  have code : other.toUInt8.toNat = other.toNat :=
    Nat.mod_eq_of_lt (Nat.lt_trans ascii (by decide))
  -- A character of ASCII is its only byte, and all bytes of any other one are above ASCII.
  by_cases narrow : c.toNat < 128
  · have ownCode : c.toUInt8.toNat = c.toNat := Nat.mod_eq_of_lt (Nat.lt_trans narrow (by decide))
    rw [utf8EncodeChar_of_ascii narrow, List.mem_singleton, ← UInt8.toNat_inj, code, ownCode,
      eq_comm, Char.toNat_inj]
  · refine iff_of_false (fun within => ?_) (fun same => narrow (same ▸ ascii))
    have wide := le_of_mem_utf8EncodeChar (Nat.not_lt.1 narrow) within
    omega

end NixKeeper.Text
