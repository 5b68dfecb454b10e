/-! Whole numbers written in decimal digits. -/

namespace NixKeeper.Decimal

/-- The decimal digits of a natural number, without leading zeros. -/
def ofNat (n : Nat) : List Char :=
  Nat.toDigits 10 n

/-- The decimal digits of an integer, after a minus sign if it is negative. -/
def ofInt : Int → List Char
  -- The constructor for negative numbers counts from minus one.
  | .ofNat n => ofNat n
  | .negSucc n => '-' :: ofNat (n + 1)

/-- Reads a text that holds decimal digits and nothing else. -/
def readNat? (text : List Char) : Option Nat :=
  if !text.isEmpty && text.all Char.isDigit then some (Nat.ofDigitChars 10 text 0) else none

/-- Reads decimal digits after an optional plus sign. -/
def readUnsigned? : List Char → Option Nat
  -- One plus sign is allowed in front.
  | '+' :: digits => readNat? digits
  | digits => readNat? digits

/-- Reads decimal digits after an optional sign. -/
def readSigned? : List Char → Option Int
  -- A minus sign is only allowed here, and a plus sign as for unsigned numbers.
  | '-' :: digits => (readNat? digits).map fun n => -(n : Int)
  | text => (readUnsigned? text).map Int.ofNat

/-- Reads a signed integer that fits sixty-four bits. -/
def readInt64? (text : List Char) : Option Int64 :=
  -- The range is checked on the exact number, so nothing wraps around.
  (readSigned? text).bind fun n =>
    if Int64.minValue.toInt ≤ n ∧ n ≤ Int64.maxValue.toInt then some (Int64.ofInt n) else none

/-- Reads an unsigned integer that fits sixty-four bits. -/
def readUInt64? (text : List Char) : Option UInt64 :=
  -- The range is checked on the exact number here too, so a greater one is not read at all.
  ((readUnsigned? text).filter (· < UInt64.size)).map UInt64.ofNat

end NixKeeper.Decimal
