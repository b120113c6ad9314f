import TopologicalOrder.Number.Decimal
import TopologicalOrder.Number.Shortest

/-!
# Floating-point numbers as text

A float is shown with the fewest digits that are read back as it. Between
`0.0001` and a million the digits are written positionally; beyond, one digit
stands before the point and an exponent of at least two digits follows.

With a fixed number of places the exact value is rounded, and a half goes to
the even neighbour.
-/

namespace TopologicalOrder.Number

/-- Whether the sign bit of a float is set. -/
def isNegative (x : Float) : Bool := 1 <<< 63 ≤ x.toBits.toNat

/-- The magnitude of a finite float. -/
def magnitude? (x : Float) : Option Binary := Binary.ofBits? .double (x.toBits.toNat % (1 <<< 63))

/-- The digits of a decimal, the most significant one first. -/
def Decimal.digits (d : Decimal) : List Char := Nat.toDigits 10 d.significand

/-- The power of ten of the first digit. -/
def Decimal.leading (d : Decimal) : Int := d.exponent + d.digits.length - 1

/-- Writes the digits with the point in its place and without exponent. -/
def Decimal.positional (d : Decimal) : List Char :=
  if 0 ≤ d.exponent then d.digits ++ List.replicate d.exponent.toNat '0'
  else
    let places := (-d.exponent).toNat
    let ds := List.replicate (places + 1 - d.digits.length) '0' ++ d.digits
    ds.take (ds.length - places) ++ '.' :: ds.drop (ds.length - places)

/-- Writes one digit before the point, and an exponent. -/
def Decimal.scientific (d : Decimal) : List Char :=
  let mantissa :=
    match d.digits with
    | [] => []
    | [c] => [c]
    | c :: cs => c :: '.' :: cs
  let power := Nat.toDigits 10 d.leading.natAbs
  let sign := if d.leading < 0 then '-' else '+'
  mantissa ++ 'e' :: sign :: List.replicate (2 - power.length) '0' ++ power

/-- A decimal as it is shown: positional if its first digit stands for a power of
ten from `-4` to `5`. -/
def Decimal.show (d : Decimal) : List Char :=
  if -4 ≤ d.leading ∧ d.leading < 6 then d.positional else d.scientific

/-- Shows a magnitude, which is absent if it is not finite, with its sign. -/
def showMagnitude (p : Precision) (isNaN negative : Bool) : Option Binary → String
  | none => if isNaN then "NaN" else if negative then "-Inf" else "+Inf"
  | some b =>
    let body :=
      match b.shortest? p with
      | none => ['0']
      | some d => d.show
    String.ofList (if negative then '-' :: body else body)

/-- **A float as it is shown.** -/
def showFloat (x : Float) : String :=
  showMagnitude .double x.isNaN (isNegative x) (magnitude? x)

/-- A float as it is shown after rounding to 32 bits. -/
def showSingle (x : Float) : String :=
  let bits := x.toFloat32.toBits.toNat
  showMagnitude .single x.isNaN (isNegative x) (Binary.ofBits? .single (bits % (1 <<< 31)))

/-- **The whole number that a float is written as** when its shortest digits are
written positionally; beyond `10 ^ 21` they are not. -/
def wholeNumber? (x : Float) : Option Int :=
  match magnitude? x with
  | none => none
  | some b =>
    match b.shortest? .double with
    | none => some 0
    | some d =>
      if d.exponent < 0 ∨ 21 ≤ d.leading then none
      else
        let n : Int := (d.significand * Nat.pow 10 d.exponent.toNat : Nat)
        some (if isNegative x then -n else n)

/-- The quotient rounded to the nearest whole number, a half to the even one. -/
def roundDiv (a b : Nat) : Nat :=
  let q := a / b
  let r := a % b
  if 2 * r < b then q else if b < 2 * r then q + 1 else q + q % 2

/-- The number times a power of ten, rounded to a whole number. -/
def Binary.scaledRound (b : Binary) (places : Nat) : Nat :=
  roundDiv ((b.mantissa <<< b.power.toNat) * Nat.pow 10 places) (1 <<< (-b.power).toNat)

/-- **A float with a fixed number of places after the point.** -/
def showFixed (places : Nat) (x : Float) : String :=
  match magnitude? x with
  | none => showFloat x
  | some b =>
    let body : Decimal := { significand := b.scaledRound places, exponent := -(places : Int) }
    String.ofList (if isNegative x then '-' :: body.positional else body.positional)

end TopologicalOrder.Number
