/-!
# Characters in a text of bytes

A text that comes from outside is a list of bytes, most of which spell
characters in UTF-8. `pieces` reads it: a byte that is not part of a character
stands for itself, so that nothing of the text is lost and every text can be
read.

The encoding admits one spelling per character. The first byte says how many
bytes follow and `tailBounds` narrows the second one, which rules out the longer
spellings, the surrogates and everything above the last code point.
-/

namespace TopologicalOrder.Text

/-- A piece of a text of bytes. -/
inductive Piece
  /-- A character that is spelled correctly. -/
  | char (c : Char)
  /-- A byte that belongs to no character. -/
  | stray (b : UInt8)
  deriving DecidableEq, Repr

/-- The bytes that spell a string. -/
def bytes (s : String) : List UInt8 := s.toUTF8.toList

/-- Whether a byte continues a character. -/
def isTail (b : UInt8) : Bool := 0x80 ≤ b && b ≤ 0xbf

/-- For a first byte of a longer character: the bounds of the second byte. -/
def tailBounds (first : UInt8) : UInt8 × UInt8 :=
  if first = 0xe0 then (0xa0, 0xbf)
  else if first = 0xed then (0x80, 0x9f)
  else if first = 0xf0 then (0x90, 0xbf)
  else if first = 0xf4 then (0x80, 0x8f)
  else (0x80, 0xbf)

/-- Whether `second` may follow `first`. -/
def isSecond (first second : UInt8) : Bool :=
  (tailBounds first).1 ≤ second && second ≤ (tailBounds first).2

/-- The low six bits that a continuing byte carries. -/
def tailBits (b : UInt8) : Nat := b.toNat % 64

/-- The character of two, three or four bytes. -/
def assemble (first : Nat) (tails : List UInt8) : Char :=
  Char.ofNat (tails.foldl (fun acc b => acc * 64 + tailBits b) first)

/-- **Reads a text of bytes.** -/
def pieces : List UInt8 → List Piece
  | [] => []
  | a :: rest =>
    if a < 0x80 then .char (Char.ofNat a.toNat) :: pieces rest
    else
      match rest with
      | b :: rest₁ =>
        if 0xc2 ≤ a && a ≤ 0xdf && isTail b then
          .char (assemble (a.toNat % 32) [b]) :: pieces rest₁
        else
          match rest₁ with
          | c :: rest₂ =>
            if 0xe0 ≤ a && a ≤ 0xef && isSecond a b && isTail c then
              .char (assemble (a.toNat % 16) [b, c]) :: pieces rest₂
            else
              match rest₂ with
              | d :: rest₃ =>
                if 0xf0 ≤ a && a ≤ 0xf4 && isSecond a b && isTail c && isTail d then
                  .char (assemble (a.toNat % 8) [b, c, d]) :: pieces rest₃
                else .stray a :: pieces (b :: c :: d :: rest₃)
              | [] => .stray a :: pieces [b, c]
          | [] => .stray a :: pieces [b]
      | [] => [.stray a]

/-- A text of bytes as a string. A byte that belongs to no character is read as the
replacement character. -/
def readable (s : List UInt8) : String :=
  String.ofList ((pieces s).map fun p =>
    match p with
    | .char c => c
    | .stray _ => '\ufffd')

end TopologicalOrder.Text
