import TopologicalOrder.Text.Utf8

/-!
# Bytes as letters

Three bytes are written as four letters of six bits each; the last group is
padded with equals signs. Line ends may stand anywhere.
-/

namespace TopologicalOrder.Text

/-- The six bits of a letter. -/
def sixBits? (c : Char) : Option Nat :=
  if 'A' ≤ c && c ≤ 'Z' then some (c.toNat - 65)
  else if 'a' ≤ c && c ≤ 'z' then some (c.toNat - 71)
  else if '0' ≤ c && c ≤ '9' then some (c.toNat + 4)
  else if c = '+' then some 62
  else if c = '/' then some 63
  else none

/-- The bytes of groups of four letters. -/
def decodeGroups : List Char → Option (List UInt8)
  | [] => some []
  | [a, b, '=', '='] => do
    let x ← sixBits? a
    let y ← sixBits? b
    some [(x * 4 + y / 16).toUInt8]
  | [a, b, c, '='] => do
    let x ← sixBits? a
    let y ← sixBits? b
    let z ← sixBits? c
    some [(x * 4 + y / 16).toUInt8, (y % 16 * 16 + z / 4).toUInt8]
  | a :: b :: c :: d :: rest => do
    let x ← sixBits? a
    let y ← sixBits? b
    let z ← sixBits? c
    let w ← sixBits? d
    let tail ← decodeGroups rest
    some ((x * 4 + y / 16).toUInt8 :: (y % 16 * 16 + z / 4).toUInt8 ::
      (z % 4 * 64 + w).toUInt8 :: tail)
  | _ => none

/-- **The bytes that letters stand for.** -/
def decodeBase64 (s : List Char) : Option (List UInt8) :=
  decodeGroups (s.filter fun c => !(c = '\n' || c = '\r'))

end TopologicalOrder.Text
