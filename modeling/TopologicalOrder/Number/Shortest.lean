/-!
# The shortest decimal of a floating-point number

A finite number is a whole number times a power of two, and all reals nearer to
it than to its neighbours are read back as that number. `shortest?` finds the
decimal with the fewest digits among them, and of several the one nearest to
the number. For each count of digits it is enough to look at the two decimals
with so many digits that enclose the number; seventeen digits always suffice.

All of it is exact arithmetic on natural numbers: a number `x` and the two ends
of its interval are held as numerators over one denominator.
-/

namespace TopologicalOrder.Number

/-- A positive decimal: `significand * 10 ^ exponent`. -/
structure Decimal where
  /-- The digits as a number. -/
  significand : Nat
  /-- The power of ten by which it is multiplied. -/
  exponent : Int
  deriving DecidableEq, Repr

/-- A positive number `value / unit` and the reals that are read as it. -/
structure Interval where
  /-- The numerator of the lower end. -/
  low : Nat
  /-- The numerator of the number itself. -/
  value : Nat
  /-- The numerator of the upper end. -/
  high : Nat
  /-- The common denominator. -/
  unit : Nat
  /-- Whether the ends belong to it. -/
  closed : Bool

/-- How the bits of a floating-point number are divided up. -/
structure Precision where
  /-- The bits of the mantissa that are stored. -/
  fractionBits : Nat
  /-- The bits of the exponent. -/
  exponentBits : Nat

/-- Numbers of 64 bits. -/
def Precision.double : Precision := { fractionBits := 52, exponentBits := 11 }

/-- Numbers of 32 bits. -/
def Precision.single : Precision := { fractionBits := 23, exponentBits := 8 }

/-- The least power of two by which a mantissa is multiplied. -/
def Precision.minPower (p : Precision) : Int :=
  2 - ((1 <<< (p.exponentBits - 1) : Nat) : Int) - (p.fractionBits : Int)

/-- A finite floating-point number without its sign, as `mantissa * 2 ^ power`. -/
structure Binary where
  /-- The mantissa. -/
  mantissa : Nat
  /-- The power of two. -/
  power : Int
  deriving DecidableEq, Repr

/-- The magnitude that the bits of a float spell, unless they spell an infinity
or no number. -/
def Binary.ofBits? (p : Precision) (bits : Nat) : Option Binary :=
  let exponent : Nat := (bits >>> p.fractionBits) % (1 <<< p.exponentBits)
  let fraction : Nat := bits % (1 <<< p.fractionBits)
  if exponent = (1 <<< p.exponentBits) - 1 then none
  else if exponent = 0 then some { mantissa := fraction, power := p.minPower }
  else some
    { mantissa := (1 <<< p.fractionBits) + fraction, power := p.minPower + exponent - 1 }

/-- The reals that are read as the number. The neighbour below is nearer where
the mantissa is the least of its power. -/
def Binary.interval (p : Precision) (b : Binary) : Interval :=
  let up := b.power.toNat
  let down := (-b.power).toNat
  let least := b.mantissa = 1 <<< p.fractionBits && b.power ≠ p.minPower
  { low := (4 * b.mantissa - (if least then 1 else 2)) <<< up
    value := (4 * b.mantissa) <<< up
    high := (4 * b.mantissa + 2) <<< up
    unit := 4 <<< down
    closed := b.mantissa % 2 = 0 }

namespace Interval

/-- Multiplies the number by a power of ten. -/
def scale (i : Interval) (e : Int) : Interval :=
  let up := Nat.pow 10 e.toNat
  let down := Nat.pow 10 (-e).toNat
  { i with low := i.low * up, value := i.value * up, high := i.high * up, unit := i.unit * down }

/-- Whether a whole number lies in the interval. -/
def contains (i : Interval) (n : Nat) : Bool :=
  if i.closed then i.low ≤ n * i.unit && n * i.unit ≤ i.high
  else i.low < n * i.unit && n * i.unit < i.high

/-- The whole number of the interval that is nearest to its value, if the value
has a neighbour in the interval; of two equally near the even one. -/
def nearest? (i : Interval) : Option Nat :=
  let below := i.value / i.unit
  let above := below + 1
  let gapBelow := i.value - below * i.unit
  let gapAbove := above * i.unit - i.value
  let preferBelow := gapBelow < gapAbove || (gapBelow = gapAbove && below % 2 = 0)
  match i.contains below && below ≠ 0, i.contains above with
  | true, true => some (if preferBelow then below else above)
  | true, false => some below
  | false, true => some above
  | false, false => none

end Interval

/-- The number of decimal digits of a positive number. -/
def digitCount (n : Nat) : Nat := (Nat.toDigits 10 n).length

/-- The power of ten of the leading digit of a positive number `a / b`. -/
def leadingPower (a b : Nat) : Int :=
  if b ≤ a then (digitCount (a / b) : Int) - 1
  else
    -- `10 ^ k * a / b` has one digit for one of the two candidates of `k`
    let k := digitCount b - digitCount a
    if b ≤ a * Nat.pow 10 k then -(k : Int) else -(k : Int) - 1

/-- Looks for a decimal of the interval with `count` digits, then with one more,
at most `tries` times. -/
def Interval.searchDigits (i : Interval) (leading : Int) (count : Nat) : Nat → Option Decimal
  | 0 => none
  | tries + 1 =>
    let exponent := leading + 1 - count
    match (i.scale (-exponent)).nearest? with
    | some n => some { significand := n, exponent := exponent }
    | none => searchDigits i leading (count + 1) tries

/-- Moves the zeros at the end of the significand into the exponent, at most
`steps` of them. -/
def Decimal.trim (d : Decimal) : Nat → Decimal
  | 0 => d
  | steps + 1 =>
    if d.significand % 10 = 0 && d.significand ≠ 0 then
      trim { significand := d.significand / 10, exponent := d.exponent + 1 } steps
    else d

/-- **The shortest decimal that is read back as the number**, for one that is
not zero. -/
def Binary.shortest? (p : Precision) (b : Binary) : Option Decimal :=
  if b.mantissa = 0 then none
  else
    let i := b.interval p
    (i.searchDigits (leadingPower i.value i.unit) 1 17).map fun d => d.trim 20

end TopologicalOrder.Number
