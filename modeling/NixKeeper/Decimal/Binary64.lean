/-! Binary numbers of sixty-four bits with a floating point, computed exactly and rounded once. -/

namespace NixKeeper

/-- A floating-point number of the binary64 format, given by its bit pattern. -/
structure Binary64 where
  /-- Sign, exponent field and fraction field, from the highest bit down. -/
  bits : UInt64
deriving DecidableEq

namespace Binary64

/-- The bit pattern of positive infinity. -/
def infinityBits : Nat :=
  0x7FF0000000000000

/-- The bit pattern without its sign. -/
def magnitude (x : Binary64) : Nat :=
  x.bits.toNat % (1 <<< 63)

/-- The sign bit is set. -/
def isNegative (x : Binary64) : Bool :=
  1 <<< 63 ≤ x.bits.toNat

/-- Positive or negative infinity. -/
def isInfinite (x : Binary64) : Bool :=
  x.magnitude == infinityBits

/-- A pattern that denotes no number. -/
def isNaN (x : Binary64) : Bool :=
  infinityBits < x.magnitude

/-- Neither infinite nor without a value. -/
def isFinite (x : Binary64) : Bool :=
  x.magnitude < infinityBits

/-- Positive or negative zero. -/
def isZero (x : Binary64) : Bool :=
  x.magnitude == 0

/-- The whole number that the fraction field and the implicit leading bit denote. -/
def significand (x : Binary64) : Nat :=
  -- A number whose exponent field is empty lacks the leading bit.
  if x.magnitude < 1 <<< 52 then x.magnitude else x.magnitude % (1 <<< 52) + (1 <<< 52)

/-- The power of two that scales the significand. -/
def exponent (x : Binary64) : Int :=
  -- The two lowest exponent fields stand for the same power.
  (max (x.magnitude >>> 52) 1 : Nat) - 1075

/-- Numerator and denominator of the absolute value of a finite number. -/
def ratio (x : Binary64) : Nat × Nat :=
  -- Of the two powers one is always the zeroth, so nothing is scaled twice.
  (x.significand <<< x.exponent.toNat, 1 <<< (-x.exponent).toNat)

/-- The number with a given sign and a given pattern below it. -/
def signed (negative : Bool) (magnitude : Nat) : Binary64 :=
  ⟨UInt64.ofNat (if negative then (1 <<< 63) + magnitude else magnitude)⟩

/-- The number with the opposite sign. -/
def negate (x : Binary64) : Binary64 :=
  signed (!x.isNegative) x.magnitude

/-- Positive or negative zero. -/
def zero (negative : Bool) : Binary64 :=
  signed negative 0

/-- Positive or negative infinity. -/
def infinity (negative : Bool) : Binary64 :=
  signed negative infinityBits

/-- A pattern that denotes no number. -/
def nan (negative : Bool) : Binary64 :=
  signed negative 0x7FF8000000000000

/-- The whole number nearest to a quotient, the even one of two that are equally near. -/
def roundHalfEven (numerator denominator : Nat) : Nat :=
  -- Twice the remainder tells on which side of the half the quotient lies.
  let quotient := numerator / denominator
  let twice := 2 * (numerator % denominator)
  if twice < denominator then quotient
  else if denominator < twice then quotient + 1
  else quotient + quotient % 2

/-- A quotient scaled by a power of two, as numerator and denominator. -/
def scaleTwo (numerator denominator : Nat) (power : Int) : Nat × Nat :=
  (numerator <<< power.toNat, denominator <<< (-power).toNat)

/--
The finite number or infinity nearest to a quotient of natural numbers.

The exponent is chosen so that the significand has fifty-three bits, or is the least exponent of
the format; a significand that rounds up to one bit more carries into the exponent field.
-/
def ofRatio (negative : Bool) (numerator denominator : Nat) : Binary64 :=
  if numerator = 0 then zero negative
  else
    -- The logarithms give the number of bits up to one, which the next step settles.
    let estimate : Int := (numerator.log2 : Int) - denominator.log2 - 52
    let (top, bottom) := scaleTwo numerator denominator (-estimate)
    let fitted := if top / bottom < 1 <<< 52 then estimate - 1 else estimate
    -- Below the least exponent the significand gets shorter instead.
    let power := max fitted (-1074)
    let (scaled, unit) := scaleTwo numerator denominator (-power)
    -- Adding the significand to the exponent field lets a carry raise the exponent.
    let pattern := (power + 1074).toNat <<< 52 + roundHalfEven scaled unit
    -- Whatever lies beyond the largest finite number is infinite.
    signed negative (min pattern infinityBits)

/-- The number nearest to a natural number. -/
def ofNat (n : Nat) : Binary64 :=
  ofRatio false n 1

/-- The rounded product of two finite numbers. -/
def multiply (x y : Binary64) : Binary64 :=
  ofRatio (x.isNegative != y.isNegative) (x.ratio.1 * y.ratio.1) (x.ratio.2 * y.ratio.2)

/-- The rounded quotient of two finite numbers, the second of which is not zero. -/
def divide (x y : Binary64) : Binary64 :=
  ofRatio (x.isNegative != y.isNegative) (x.ratio.1 * y.ratio.2) (x.ratio.2 * y.ratio.1)

/--
The number nearest to `digits * 10 ^ exponent`.

Beyond four hundred places on either side of the point the answer is infinity or zero, whatever the
digits are, so no power of ten larger than that is ever computed.
-/
def ofDecimal (negative : Bool) (digits : Nat) (exponent : Int) : Binary64 :=
  if digits = 0 then zero negative
  else
    -- The number of places before the point bounds the number from both sides.
    let places := ((Nat.toDigits 10 digits).length : Int) + exponent
    if 400 < places then infinity negative
    else if places < -400 then zero negative
    else ofRatio negative (digits * Nat.pow 10 exponent.toNat) (Nat.pow 10 (-exponent).toNat)

end Binary64

end NixKeeper
