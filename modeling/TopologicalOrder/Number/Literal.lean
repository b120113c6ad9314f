import TopologicalOrder.Number.Decimal

/-!
# Integer literals

An integer literal says its base by a prefix: `0b` for two, `0o` or a leading
zero for eight, `0x` for sixteen, and ten without any. Single underscores may
stand between digits, and between the prefix and the first digit.
-/

namespace TopologicalOrder.Number

/-- The small letter of a capital one. -/
def lower (b : UInt8) : UInt8 :=
  if ascii 'A' ≤ b && b ≤ ascii 'Z' then b + 32 else b

/-- Splits the prefix off: the base and the digits. A prefix is one only if
something follows it. -/
def splitBase : List UInt8 → Nat × List UInt8
  | z :: p :: d :: ds =>
    if z = ascii '0' then
      if lower p = ascii 'b' then (2, d :: ds)
      else if lower p = ascii 'o' then (8, d :: ds)
      else if lower p = ascii 'x' then (16, d :: ds)
      else (8, p :: d :: ds)
    else (10, z :: p :: d :: ds)
  | z :: ds => if z = ascii '0' then (8, ds) else (10, z :: ds)
  | [] => (10, [])

/-- What stood last in a literal, as far as underscores care. -/
inductive Neighbour
  /-- Nothing yet. -/
  | edge
  /-- A digit, or the prefix of the base. -/
  | digit
  /-- An underscore. -/
  | underscore
  /-- Anything else. -/
  | other
  deriving DecidableEq

/-- Whether every underscore stands between two digits. -/
def underscoresBetween (isDigit : UInt8 → Bool) : Neighbour → List UInt8 → Bool
  | last, [] => last ≠ .underscore
  | last, b :: bs =>
    if isDigit b then underscoresBetween isDigit .digit bs
    else if b = ascii '_' then last = .digit && underscoresBetween isDigit .underscore bs
    else last ≠ .underscore && underscoresBetween isDigit .other bs

/-- Whether the underscores of a literal without sign are in their places. -/
def underscoresOk (s : List UInt8) : Bool :=
  let isDecimal := fun b => ascii '0' ≤ b && b ≤ ascii '9'
  let isHex := fun b => isDecimal b || (ascii 'a' ≤ lower b && lower b ≤ ascii 'f')
  match s with
  | z :: p :: ds =>
    if z = ascii '0' && (lower p = ascii 'b' || lower p = ascii 'o') then
      underscoresBetween isDecimal .digit ds
    else if z = ascii '0' && lower p = ascii 'x' then underscoresBetween isHex .digit ds
    else underscoresBetween isDecimal .edge s
  | _ => underscoresBetween isDecimal .edge s

/-- **Reads a literal without sign.** -/
def readUnsignedLiteral (s : List UInt8) : Except ReadFault Nat :=
  match s with
  | [] => .error .malformed
  | _ =>
    match splitBase s with
    | (base, ds) =>
      match readDigits base 0 (ds.filter (· ≠ ascii '_')) with
      | .error e => .error e
      | .ok m => if s.contains (ascii '_') && !underscoresOk s then .error .malformed else .ok m

/-- **Reads an integer literal** with an optional sign. -/
def readLiteral (s : List UInt8) : Except ReadFault Int :=
  match splitSign s with
  | (negative, ds) =>
    match readUnsignedLiteral ds with
    | .error e => .error e
    | .ok m => signed negative m

end TopologicalOrder.Number
