/-!
# The characters of YAML

Which characters may occur in a stream, and the classes that matter to its
grammar. A line ends with a line feed, a carriage return or both, with the next
line control, or with one of the two Unicode separators; only the separators are
kept in a text, all others are read as a line feed.
-/

namespace TopologicalOrder.Yaml

/-- Whether a character may occur in a stream. -/
def isAllowed (c : Char) : Bool :=
  let n := c.toNat
  n = 0x09 || n = 0x0a || n = 0x0d || (0x20 ≤ n && n ≤ 0x7e) || n = 0x85 ||
    (0xa0 ≤ n && n ≤ 0xd7ff) || (0xe000 ≤ n && n ≤ 0xfffd) || 0x10000 ≤ n

/-- The mark that may stand before a text to announce its encoding. -/
def byteOrderMark : Char := '\ufeff'

/-- Whether a character separates lines and stays what it is. -/
def isSeparator (c : Char) : Bool := c = '\u2028' || c = '\u2029'

/-- Whether a character ends a line. -/
def isBreak (c : Char) : Bool :=
  c = '\n' || c = '\r' || c = '\u0085' || isSeparator c

/-- What a line end is read as. -/
def breakChar (c : Char) : Char := if isSeparator c then c else '\n'

/-- Whether a character is a space or a tab. -/
def isBlank (c : Char) : Bool := c = ' ' || c = '\t'

/-- Whether a text goes on with a blank or a line end, or not at all. -/
def startsBlank : List Char → Bool
  | [] => true
  | c :: _ => isBlank c || isBreak c

/-- Whether a text goes on with a line end, or not at all. -/
def startsBreak : List Char → Bool
  | [] => true
  | c :: _ => isBreak c

/-- Whether a character may occur in a name. -/
def isWord (c : Char) : Bool := c.isAlphanum || c = '_' || c = '-'

/-- Whether a line that is about to start is the mark `---` or `...` between
documents. -/
def startsMarker : List Char → Bool
  | '-' :: '-' :: '-' :: rest => startsBlank rest
  | '.' :: '.' :: '.' :: rest => startsBlank rest
  | _ => false

/-- The value of a hexadecimal digit. -/
def hexValue? (c : Char) : Option Nat :=
  if '0' ≤ c && c ≤ '9' then some (c.toNat - 48)
  else if 'a' ≤ c && c ≤ 'f' then some (c.toNat - 87)
  else if 'A' ≤ c && c ≤ 'F' then some (c.toNat - 55)
  else none

end TopologicalOrder.Yaml
