/-!
# Decimal integers

Integers are written without leading zeros and read with an optional sign. What
is read has to fit into a signed word of 64 bits. Reading goes from left to
right and stops at the first fault, so that a number too large for an unsigned
word is out of range even if something that is no digit follows.
-/

namespace TopologicalOrder.Number

/-- Why a text is not read as a number. -/
inductive ReadFault
  /-- It is not spelled like a number. -/
  | malformed
  /-- The number does not fit. -/
  | outOfRange
  deriving DecidableEq, Repr

/-- The wording of a fault. -/
def ReadFault.message : ReadFault → String
  | .malformed => "invalid syntax"
  | .outOfRange => "value out of range"

/-- The byte of a character of the first 128. -/
def ascii (c : Char) : UInt8 := c.toNat.toUInt8

/-- The bytes of a text whose characters are among the first 128. -/
def asciiBytes (s : String) : List UInt8 := s.toList.map ascii

/-- **The decimal digits of a number**, the most significant one first. -/
def digits (n : Nat) : List UInt8 := (Nat.toDigits 10 n).map ascii

/-- **An integer in decimal**, with a minus sign if it is negative. -/
def decimal : Int → List UInt8
  | .ofNat n => digits n
  | .negSucc n => ascii '-' :: digits (n + 1)

/-- The value of a digit, where the letters of either case follow the nine. -/
def digitValue? (b : UInt8) : Option Nat :=
  if ascii '0' ≤ b && b ≤ ascii '9' then some (b.toNat - 48)
  else if ascii 'a' ≤ b && b ≤ ascii 'z' then some (b.toNat - 87)
  else if ascii 'A' ≤ b && b ≤ ascii 'Z' then some (b.toNat - 55)
  else none

/-- Reads digits of the given base after those that gave `acc`, within an
unsigned word. -/
def readDigits (base acc : Nat) : List UInt8 → Except ReadFault Nat
  | [] => .ok acc
  | b :: bs =>
    match digitValue? b with
    | none => .error .malformed
    | some d =>
      if base ≤ d then .error .malformed
      else if 1 <<< 64 ≤ acc * base + d then .error .outOfRange
      else readDigits base (acc * base + d) bs

/-- Splits a sign off; `true` means that it is a minus. -/
def splitSign : List UInt8 → Bool × List UInt8
  | [] => (false, [])
  | b :: bs =>
    if b = ascii '-' then (true, bs)
    else if b = ascii '+' then (false, bs)
    else (false, b :: bs)

/-- Gives a magnitude its sign, within a signed word. -/
def signed (negative : Bool) (m : Nat) : Except ReadFault Int :=
  if negative then
    if 1 <<< 63 < m then .error .outOfRange else .ok (-(m : Int))
  else
    if 1 <<< 63 ≤ m then .error .outOfRange else .ok m

/-- Reads one or more digits. -/
def readUnsigned (base : Nat) (s : List UInt8) : Except ReadFault Nat :=
  match s with
  | [] => .error .malformed
  | _ => readDigits base 0 s

/-- **Reads an integer of the given base**: an optional sign and digits. -/
def readSigned (base : Nat) (s : List UInt8) : Except ReadFault Int :=
  match splitSign s with
  | (negative, ds) =>
    match readUnsigned base ds with
    | .error e => .error e
    | .ok m => signed negative m

/-- Reads a decimal integer. -/
def readDecimal (s : List UInt8) : Except ReadFault Int := readSigned 10 s

end TopologicalOrder.Number
