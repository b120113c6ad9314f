import TopologicalOrder.Number.Floating
import TopologicalOrder.Number.Literal

/-!
# Decimal floating-point numbers

A number is written with digits, of which some may follow a point, and an
optional exponent. It is read as the nearest float; what is too large for one is
not a number, and what is too small is zero.
-/

namespace TopologicalOrder.Number

/-- Whether a byte is a digit. -/
def isDigit (b : UInt8) : Bool := ascii '0' ≤ b && b ≤ ascii '9'

/-- The number that digits stand for. -/
def ofDigits (ds : List UInt8) : Nat :=
  ds.foldl (fun n d => n * 10 + (d.toNat - 48)) 0

/-- The exponent that digits stand for. Once it has reached ten thousand, which is
beyond every float, further digits do not count. -/
def exponentOf (ds : List UInt8) : Nat :=
  ds.foldl (fun n d => if n < 10000 then n * 10 + (d.toNat - 48) else n) 0

/-- Reads an exponent, with its letter, or nothing. -/
def readExponent : List UInt8 → Option Int
  | [] => some 0
  | e :: rest =>
    let (negative, ds) := splitSign rest
    if lower e = ascii 'e' && !ds.isEmpty && ds.all isDigit then
      some (if negative then -(exponentOf ds : Int) else exponentOf ds)
    else none

/-- Reads a number exactly: its sign and its magnitude. -/
def readScientific (s : List UInt8) : Option (Bool × Decimal) :=
  let (negative, s) := splitSign s
  let whole := s.takeWhile isDigit
  let rest := s.dropWhile isDigit
  let (fraction, rest) :=
    match rest with
    | [] => ([], [])
    | p :: after =>
      if p = ascii '.' then (after.takeWhile isDigit, after.dropWhile isDigit) else ([], rest)
  if whole.isEmpty && fraction.isEmpty then none
  else (readExponent rest).map fun e =>
    (negative, { significand := ofDigits (whole ++ fraction), exponent := e - fraction.length })

/-! ## Rounding to a float -/

/-- The power of two by which the mantissa of a positive number `a / b` is
multiplied, so that it has all the bits that can be stored. -/
def Precision.powerFor (p : Precision) (a b : Nat) : Int :=
  -- the power of two of the leading bit is `e` or one less
  let e : Int := (a.log2 : Int) - b.log2
  let reached := b <<< e.toNat ≤ a <<< (-e).toNat
  max ((if reached then e else e - 1) - p.fractionBits) p.minPower

/-- The floating-point number nearest to a positive number `a / b`; a half goes to
the even neighbour. -/
def Binary.ofRatio (p : Precision) (a b : Nat) : Binary :=
  let power := p.powerFor a b
  { mantissa := roundDiv (a <<< (-power).toNat) (b <<< power.toNat), power := power }

/-- The bits that spell a magnitude, unless it is too large. -/
def Binary.bits? (p : Precision) (b : Binary) : Option Nat :=
  let bits := b.mantissa + ((b.power - p.minPower).toNat <<< p.fractionBits)
  if bits < ((1 <<< p.exponentBits) - 1) <<< p.fractionBits then some bits else none

/-- The nearest float of a decimal, unless it is too large. -/
def Decimal.toFloat? (d : Decimal) : Option Float :=
  let leading := d.exponent + digitCount d.significand
  if d.significand = 0 || leading < -330 then some 0.0
  else if 310 < leading then none
  else
    let b := Binary.ofRatio .double
      (d.significand * Nat.pow 10 d.exponent.toNat) (Nat.pow 10 (-d.exponent).toNat)
    (b.bits? .double).map fun bits => Float.ofBits bits.toUInt64

/-- **Reads a decimal floating-point number.** -/
def readFloat (s : List UInt8) : Option Float := do
  let (negative, d) ← readScientific s
  let x ← d.toFloat?
  some (if negative then -x else x)

end TopologicalOrder.Number
