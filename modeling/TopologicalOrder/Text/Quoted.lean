import TopologicalOrder.Text.Utf8
import TopologicalOrder.Text.Printable

/-!
# Quoted text

Messages show a text from outside in quotes, on one line and without ambiguity.
Printable characters stand for themselves, the quote and the backslash are
preceded by a backslash, seven control characters have a letter of their own,
and all else is written by number: two hexadecimal digits for a control
character or a byte that spells nothing, four or eight for other characters.
-/

namespace TopologicalOrder.Text

/-- The lower-case hexadecimal digits of `n`, at least `width` of them. -/
def hex (width n : Nat) : List Char :=
  let ds := Nat.toDigits 16 n
  List.replicate (width - ds.length) '0' ++ ds

/-- The letter by which a control character is written after a backslash. -/
def controlLetter? : Char → Option Char
  | '\x07' => some 'a'
  | '\x08' => some 'b'
  | '\x0c' => some 'f'
  | '\n' => some 'n'
  | '\r' => some 'r'
  | '\t' => some 't'
  | '\x0b' => some 'v'
  | _ => none

/-- A character as it is written between two marks `mark`. -/
def escape (mark c : Char) : List Char :=
  if c = mark || c = '\\' then ['\\', c]
  else if isPrintable c then [c]
  else
    match controlLetter? c with
    | some l => ['\\', l]
    | none =>
      if c.toNat < 0x20 || c.toNat = 0x7f then '\\' :: 'x' :: hex 2 c.toNat
      else if c.toNat < 0x10000 then '\\' :: 'u' :: hex 4 c.toNat
      else '\\' :: 'U' :: hex 8 c.toNat

/-- A piece of a text as it is written between double quotes. -/
def Piece.escape : Piece → List Char
  | .char c => Text.escape '"' c
  | .stray b => '\\' :: 'x' :: hex 2 b.toNat

/-- **A text of bytes in double quotes.** -/
def quote (s : List UInt8) : String :=
  String.ofList ('"' :: (pieces s).flatMap Piece.escape ++ ['"'])

/-- A string in double quotes. -/
def quoteString (s : String) : String := quote (bytes s)

/-- One character in single quotes. -/
def quoteChar (c : Char) : String := String.ofList ('\'' :: escape '\'' c ++ ['\''])

end TopologicalOrder.Text
