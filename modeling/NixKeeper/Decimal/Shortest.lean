import NixKeeper.Decimal.Binary64
import NixKeeper.Decimal.Integer

/-! The shortest decimal text that reads back as a given floating-point number. -/

namespace NixKeeper.Binary64

/-- Which of two equally near decimal numbers is taken. -/
inductive Tie where
  | even
  | up
deriving DecidableEq

/-- How the chosen digits of a number are laid out. -/
structure Layout where
  /-- The choice between two shortest digit strings that are equally near. -/
  tie : Tie
  /-- The positions of the decimal point that are written without an exponent. -/
  positional : Int → Bool
  /-- A whole number keeps a point and a zero. -/
  keepsPoint : Bool
  /-- The text of a pattern that denotes no number. -/
  notANumber : String

/-- The numbers that round to `x`: lower end, value and upper end, over a common denominator. -/
structure Rounding where
  low : Nat
  value : Nat
  high : Nat
  denominator : Nat
  /-- Both ends round to `x` as well. -/
  closed : Bool

/--
The interval of numbers that round to a finite number other than zero.

Ends lie half a unit away, except below a power of two, where the neighbour is twice as near.
-/
def rounding (x : Binary64) : Rounding :=
  -- In quarters of a unit all three numbers are whole.
  let m := x.significand
  let power := x.exponent - 2
  let up := 1 <<< power.toNat
  -- The least significand has a nearer neighbour below it, if there is a lower exponent.
  let narrow := m == 1 <<< 52 && 1 <<< 53 ≤ x.magnitude
  { low := (if narrow then 4 * m - 1 else 4 * m - 2) * up
    value := 4 * m * up
    high := (4 * m + 2) * up
    denominator := 1 <<< (-power).toNat
    closed := m % 2 == 0 }

/-- The position of the decimal point: the least power of ten above the value. -/
def Rounding.point (r : Rounding) : Int :=
  -- A value below one has its first digit as far behind the point as its inverse has digits.
  if r.denominator ≤ r.value then
    (Nat.toDigits 10 (r.value / r.denominator)).length
  else
    1 - (Nat.toDigits 10 (r.denominator / r.value)).length

/-- The point `count` of the grid `10 ^ power` rounds to the same number. -/
def Rounding.admits (r : Rounding) (power : Int) (count : Nat) : Bool :=
  -- Both sides are scaled up, so that natural numbers are compared.
  let candidate := count * Nat.pow 10 power.toNat * r.denominator
  let unit := Nat.pow 10 (-power).toNat
  if r.closed then r.low * unit ≤ candidate && candidate ≤ r.high * unit
  else r.low * unit < candidate && candidate < r.high * unit

/-- The nearer of the two neighbours of the value on the grid `10 ^ power`, if one is admitted. -/
def Rounding.nearest? (r : Rounding) (tie : Tie) (power : Int) : Option Nat :=
  let scaled := r.value * Nat.pow 10 (-power).toNat
  let unit := r.denominator * Nat.pow 10 power.toNat
  -- The value lies between two neighbours on the grid, unless it is one of them.
  let below := scaled / unit
  let twice := 2 * (scaled % unit)
  let above := decide (unit < twice) ||
    (twice == unit && (tie == .up || below % 2 == 1))
  match r.admits power below, r.admits power (below + 1) with
  | true, true => some (if above then below + 1 else below)
  | true, false => some below
  | false, true => some (below + 1)
  | false, false => none

/-- Digits without zeros at their end, and the power of ten that scales them. -/
def stripZeros : Nat → Nat → Int → Nat × Int
  | 0, digits, power => (digits, power)
  -- Each zero at the end moves into the power.
  | fuel + 1, digits, power =>
    if digits % 10 = 0 ∧ digits ≠ 0 then stripZeros fuel (digits / 10) (power + 1)
    else (digits, power)

/-- The fewest digits that read back as `x`, and the power of ten that scales them. -/
def shortest (tie : Tie) (x : Binary64) : Nat × Int :=
  let r := x.rounding
  let point := r.point
  -- Coarser grids come first; seventeen digits are always enough.
  let found := (List.range 17).findSome? fun (n : Nat) =>
    let power := point - (n + 1 : Nat)
    (r.nearest? tie power).map fun digits => stripZeros 17 digits power
  found.getD (0, 0)

/-- Digits with the decimal point written at its place. -/
def positionalText (keepsPoint : Bool) (digits : List Char) (power : Int) : List Char :=
  if 0 ≤ power then
    digits ++ List.replicate power.toNat '0' ++ (if keepsPoint then ['.', '0'] else [])
  else
    -- The point stands among the digits, or else before zeros that lead up to them.
    let whole := (digits.length : Int) + power
    if 0 < whole then digits.take whole.toNat ++ '.' :: digits.drop whole.toNat
    else ['0', '.'] ++ List.replicate (-whole).toNat '0' ++ digits

/-- Digits with one place before the decimal point and a signed power of ten. -/
def exponentText (digits : List Char) (power : Int) : List Char :=
  -- One digit stands before the point, and the others raise the exponent.
  let exponent := (digits.length : Int) + power - 1
  let mantissa := match digits with
    | [] => []
    | [digit] => [digit]
    | digit :: more => digit :: '.' :: more
  let sign := if exponent < 0 then '-' else '+'
  mantissa ++ 'e' :: sign :: Decimal.ofNat exponent.natAbs

/-- The text of a finite number other than zero, without its sign. -/
def digitsText (layout : Layout) (x : Binary64) : List Char :=
  -- The number of digits and the power decide on the layout.
  let (value, power) := x.shortest layout.tie
  let digits := Decimal.ofNat value
  if layout.positional (digits.length + power) then
    positionalText layout.keepsPoint digits power
  else
    exponentText digits power

/-- The text of a number in a layout. -/
def render (layout : Layout) (x : Binary64) : List Char :=
  -- The sign is written in front of infinity and of zero, too.
  if x.isNaN then layout.notANumber.toList
  else
    let body :=
      if x.isInfinite then "inf".toList
      else if x.isZero then (if layout.keepsPoint then "0.0".toList else ['0'])
      else x.digitsText layout
    if x.isNegative then '-' :: body else body

/-- The plain layout has no exponent and no point in a whole number; a tie goes up. -/
def plain : Layout :=
  ⟨.up, fun _ => true, false, "NaN"⟩

end NixKeeper.Binary64
