import NixKeeper.Decimal.Integer
import NixKeeper.Document.Basic

/-!
Numbers as JSON files hold them.

A number with a point, an exponent or too many digits is read into a significand of sixty-four bits,
which is then scaled by powers of ten with one rounding each.
-/

namespace NixKeeper.Json

/-- Takes digits into a significand while it fits sixty-four bits; answers what is left over. -/
def absorb : Nat → List Char → Nat × List Char
  | significand, [] => (significand, [])
  | significand, digit :: rest =>
    let next := significand * 10 + (digit.toNat - '0'.toNat)
    -- A digit that does not fit is left over, and so are all digits behind it.
    if next < UInt64.size then absorb next rest else (significand, digit :: rest)

/-- A power of ten up to the largest that is finite. -/
def powerOfTen (exponent : Nat) : Binary64 :=
  Binary64.ofDecimal false 1 exponent

/-- Divides by a power of ten, in steps of at most `1e308`. -/
def scaleDown (x : Binary64) (exponent : Nat) : Binary64 :=
  -- The largest power of ten that is finite has this exponent.
  if exponent ≤ 308 then x.divide (powerOfTen exponent)
  else if x.isZero then x
  else scaleDown (x.divide (powerOfTen 308)) (exponent - 308)
termination_by exponent

/-- Multiplies by a power of ten; there is no answer beyond the finite numbers. -/
def scaleUp (x : Binary64) (exponent : Nat) : Option Binary64 :=
  if exponent ≤ 308 then
    -- A product beyond the largest number is no number in this format.
    let product := x.multiply (powerOfTen exponent)
    if product.isInfinite then none else some product
  else if x.isZero then some x
  else none

/-- The number with a significand and a power of ten. -/
def scaled (negative : Bool) (significand : Nat) (exponent : Int) : Option Binary64 :=
  -- The significand is rounded first, and then multiplied or divided by the power of ten.
  let whole := Binary64.ofNat significand
  let result := match exponent with
    | .ofNat e => scaleUp whole e
    | .negSucc e => some (scaleDown whole (e + 1))
  result.map fun x => if negative then x.negate else x

/-- The number written with the given digits before and after the point. -/
def floatOf (negative : Bool) (whole fraction : List Char) (exponent : Int) : Document :=
  -- Digits that were left over before the point still count as places.
  let (start, dropped) := absorb 0 whole
  let (significand, unused) := absorb start fraction
  let shift := (dropped.length : Int) - (fraction.length - unused.length : Nat)
  match scaled negative significand (shift + exponent) with
  | some x => .float x
  | none => .unreadable

/-- The number written with digits alone; it is whole if it fits sixty-four bits. -/
def integerOf (negative : Bool) (digits : List Char) : Document :=
  let n := Nat.ofDigitChars 10 digits 0
  if negative then
    -- Zero with a minus sign is kept apart from zero, so it is not a whole number.
    if 0 < n ∧ n ≤ 1 <<< 63 then .integer (-(n : Int)) else floatOf true digits [] 0
  else
    if n < UInt64.size then .integer n else floatOf false digits [] 0

/-- Decimal digits at the head of a text, at least one, and what follows. -/
def digits? (text : List Char) : Option (List Char × List Char) :=
  -- An empty run of digits is refused.
  let digits := text.takeWhile Char.isDigit
  if digits.isEmpty then none else some (digits, text.dropWhile Char.isDigit)

/-- The signed power of ten after the letter that announces it. -/
def exponent? : List Char → Option (Int × List Char)
  -- The sign is allowed to be missing.
  | '+' :: rest => (digits? rest).map fun (ds, after) => (Nat.ofDigitChars 10 ds 0, after)
  | '-' :: rest => (digits? rest).map fun (ds, after) => (-(Nat.ofDigitChars 10 ds 0 : Int), after)
  | text => (digits? text).map fun (ds, after) => (Nat.ofDigitChars 10 ds 0, after)

/-- A number after its sign: no leading zeros, and digits on both sides of a point. -/
def unsigned? (negative : Bool) (text : List Char) : Option (Document × List Char) := do
  let (whole, rest) ← digits? text
  -- A leading zero may only stand alone.
  if whole.head? = some '0' ∧ 1 < whole.length then none
  let (fraction, rest) ← match rest with
    | '.' :: after => digits? after
    | _ => some ([], rest)
  match rest with
  | 'e' :: after | 'E' :: after =>
    let (exponent, rest) ← exponent? after
    some (floatOf negative whole fraction exponent, rest)
  | _ =>
    if fraction.isEmpty then some (integerOf negative whole, rest)
    else some (floatOf negative whole fraction 0, rest)

/-- A number at the head of a text, and what follows. -/
def number? : List Char → Option (Document × List Char)
  -- The sign is read apart from the digits.
  | '-' :: rest => unsigned? true rest
  | text => unsigned? false text

end NixKeeper.Json
