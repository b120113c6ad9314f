import TopologicalOrder.Text.Utf8
import TopologicalOrder.Yaml.Character

/-!
# Streams of characters

A stream is given as bytes in UTF-8, or in UTF-16 if it starts with the mark of
that encoding. It is read in portions of 512 bytes, and a portion only when a
character of it is called for. A portion with a byte that belongs to no character,
or with a character that may not occur, cannot be read: whoever calls for it
fails, and whoever is done before does not notice. A character that is cut off at
the end of a portion is read with the next one.

`Stream` holds the characters of all portions before the first one that cannot be
read and the numbers of characters at which the portions end, its seams. `Window`
says how far a stream has been read. Every reader asks it for the characters that
it is about to look at.
-/

namespace TopologicalOrder.Yaml

/-! ## Decoding -/

/-- How characters are written as bytes. -/
inductive Encoding
  /-- One to four bytes for a character. -/
  | utf8
  /-- One or two words for a character. -/
  | utf16 (bigEndian : Bool)

/-- What some bytes are the start of. -/
inductive Spelling
  /-- More bytes are needed. -/
  | incomplete
  /-- They are a character. -/
  | char (c : Char)
  /-- They are not the start of any character. -/
  | invalid

/-- The character of a code point, if there is one and it may occur. -/
def Spelling.ofCode (n : Nat) : Spelling :=
  if h : n.isValidChar then
    let c := Char.ofNatAux n h
    if isAllowed c then .char c else .invalid
  else .invalid

/-- The number of bytes of a character by its first one, and zero if it is none. -/
def utf8Width (b : UInt8) : Nat :=
  if b < 0x80 then 1
  else if b < 0xc0 then 0
  else if b < 0xe0 then 2
  else if b < 0xf0 then 3
  else if b < 0xf8 then 4
  else 0

/-- The bits that the first byte of a character of so many bytes carries. -/
def utf8Lead (width : Nat) (b : UInt8) : Nat :=
  if width = 1 then b.toNat else b.toNat % (1 <<< (7 - width))

/-- The least code point that is written with so many bytes. -/
def utf8Least (width : Nat) : Nat :=
  if width = 2 then 0x80 else if width = 3 then 0x800 else if width = 4 then 0x10000 else 0

/-- Looks at bytes in UTF-8. -/
def spellingOfUtf8 : List UInt8 → Spelling
  | [] => .incomplete
  | a :: tails =>
    let width := utf8Width a
    if width = 0 then .invalid
    else if tails.length + 1 < width then .incomplete
    else
      let n := tails.foldl (fun n b => n * 64 + Text.tailBits b) (utf8Lead width a)
      if tails.all Text.isTail && utf8Least width ≤ n then .ofCode n else .invalid

/-- Looks at bytes in UTF-16. -/
def spellingOfUtf16 (bigEndian : Bool) (bytes : List UInt8) : Spelling :=
  let word := fun (a b : UInt8) =>
    if bigEndian then a.toNat * 256 + b.toNat else b.toNat * 256 + a.toNat
  match bytes with
  | a :: b :: rest =>
    let w := word a b
    if w / 0x400 = 0x37 then .invalid
    else if w / 0x400 = 0x36 then
      match rest with
      | c :: d :: _ =>
        let v := word c d
        if v / 0x400 = 0x37 then .ofCode (0x10000 + w % 0x400 * 0x400 + v % 0x400) else .invalid
      | _ => .incomplete
    else .ofCode w
  | _ => .incomplete

/-- Looks at bytes in an encoding. -/
def Encoding.spelling : Encoding → List UInt8 → Spelling
  | .utf8, bytes => spellingOfUtf8 bytes
  | .utf16 bigEndian, bytes => spellingOfUtf16 bigEndian bytes

/-- **A text as it can be read.** -/
structure Stream where
  /-- The characters. -/
  text : List Char
  /-- The numbers of characters up to the end of each portion. -/
  seams : List Nat
  /-- Whether another portion follows, which cannot be read. -/
  broken : Bool

/-- The number of bytes of a portion. -/
def portionSize : Nat := 512

/-- What has been read of a text. -/
structure Decoding where
  /-- The number of bytes that are left in the portion. -/
  room : Nat
  /-- The bytes of the character that is being read. -/
  unit : List UInt8 := []
  /-- The characters, backwards. -/
  text : List Char := []
  /-- Their number. -/
  count : Nat := 0
  /-- The number of them that belong to the portion. -/
  fresh : Nat := 0
  /-- The ends of the portions before, backwards. -/
  seams : List Nat := []

namespace Decoding

/-- Reads a character. -/
def push (d : Decoding) (c : Char) : Decoding :=
  { d with unit := [], text := c :: d.text, count := d.count + 1, fresh := d.fresh + 1 }

/-- Passes a byte, and with it the end of the portion if it was the last one. The
bytes of a character that has been begun belong to the next portion. -/
def pass (d : Decoding) : Decoding :=
  if d.room ≤ 1 then
    { d with room := portionSize - d.unit.length, fresh := 0, seams := d.count :: d.seams }
  else { d with room := d.room - 1 }

/-- The stream whose bytes have come to an end. -/
def finish (d : Decoding) : Stream where
  text := d.text.reverse
  seams := (d.count :: d.seams).reverse
  broken := !d.unit.isEmpty

/-- The stream that cannot be read from this portion on. -/
def stop (d : Decoding) : Stream where
  text := (d.text.drop d.fresh).reverse
  seams := d.seams.reverse
  broken := true

/-- Reads bytes in turn. -/
def run (e : Encoding) (d : Decoding) : List UInt8 → Stream
  | [] => d.finish
  | b :: rest =>
    let unit := d.unit ++ [b]
    match e.spelling unit with
    | .invalid => d.stop
    | .incomplete => run e { d with unit := unit }.pass rest
    | .char c => run e (d.push c).pass rest

end Decoding

/-- **Reads a stream** in the encoding that its first bytes announce. An empty one
is like an empty line. -/
def Stream.ofBytes : List UInt8 → Stream
  | [] => Decoding.run .utf8 { room := portionSize } [0x0a]
  | 0xff :: 0xfe :: rest => Decoding.run (.utf16 false) { room := portionSize - 2 } rest
  | 0xfe :: 0xff :: rest => Decoding.run (.utf16 true) { room := portionSize - 2 } rest
  | 0xef :: 0xbb :: 0xbf :: rest => Decoding.run .utf8 { room := portionSize - 3 } rest
  | s => Decoding.run .utf8 { room := portionSize } s

/-! ## How far a stream has been read -/

/-- The part of a stream that has been read. -/
structure Window where
  /-- The number of characters that have been read. -/
  loaded : Nat := 0
  /-- The ends of the portions that have not. -/
  seams : List Nat
  /-- Whether a portion follows that cannot be read. -/
  broken : Bool
  /-- How often the end of the text has been met. Each time it counts as one more
  character. -/
  ends : Nat := 0
  /-- Whether the reader stood before a byte order mark when the last portion was
  read. -/
  marked : Bool := false

namespace Window

/-- Reads portions until there are `upTo` characters, or up to the end. -/
def fill (w : Window) (upTo : Nat) : List Nat → Option Window
  | [] => if w.broken then none else some { w with seams := [], ends := w.ends + 1 }
  | s :: ss =>
    if upTo ≤ s then some { w with loaded := s, seams := ss }
    else fill { w with loaded := s } upTo ss

/-- Asks for `n` characters from `index` on, of which `next` is the first. -/
def need (w : Window) (index n : Nat) (next : Option Char) : Option Window :=
  if index + n ≤ w.loaded + w.ends then some w
  else (w.fill (index + n) w.seams).map ({ · with marked := next = some byteOrderMark })

end Window

/-! ## Places -/

/-- A place in a stream. -/
structure Mark where
  /-- The number of characters before it. -/
  index : Nat := 0
  /-- The number of line ends before it. -/
  line : Nat := 0
  /-- The number of characters before it in its line. -/
  column : Nat := 0

/-- The place after `n` characters of the same line. -/
def Mark.advance (m : Mark) (n : Nat) : Mark :=
  { m with index := m.index + n, column := m.column + n }

/-- The place after one character of the same line. -/
def Mark.next (m : Mark) : Mark := m.advance 1

/-- The place after a line end of `n` characters. -/
def Mark.nextLine (m : Mark) (n : Nat) : Mark :=
  { index := m.index + n, line := m.line + 1, column := 0 }

/-- What is left of a stream, the place where it starts, and how far it has been
read. -/
structure Cursor where
  /-- The characters that are left. -/
  rest : List Char
  /-- The place of the first of them. -/
  mark : Mark := {}
  /-- How far the stream has been read. -/
  window : Window

namespace Cursor

/-- The start of a stream. -/
def ofStream (s : Stream) : Cursor :=
  { rest := s.text, window := { seams := s.seams, broken := s.broken } }

/-- Asks for `n` characters. -/
def need (c : Cursor) (n : Nat) : Option Cursor :=
  (c.window.need c.mark.index n c.rest.head?).map ({ c with window := · })

/-- Passes `n` characters of the same line. -/
def skip (c : Cursor) (n : Nat) : Cursor :=
  { c with rest := c.rest.drop n, mark := c.mark.advance n }

/-- Passes characters of a class; those before are held backwards. -/
def spanFrom (p : Char → Bool) (taken : List Char) (m : Mark) (w : Window) :
    List Char → Option (List Char × Cursor)
  | [] =>
    (w.need m.index 1 none).map fun w =>
      (taken.reverse, { rest := [], mark := m, window := w })
  | c :: rest =>
    match w.need m.index 1 (some c) with
    | none => none
    | some w =>
      if p c then spanFrom p (c :: taken) m.next w rest
      else some (taken.reverse, { rest := c :: rest, mark := m, window := w })

/-- Passes the characters of the same line that belong to a class, and gives
them. -/
def span (c : Cursor) (p : Char → Bool) : Option (List Char × Cursor) :=
  spanFrom p [] c.mark c.window c.rest

/-- Passes characters of a class. -/
def skipWhile (c : Cursor) (p : Char → Bool) : Option Cursor := (c.span p).map Prod.snd

/-- Passes a line end, if one follows. -/
def skipBreak (c : Cursor) : Option Cursor :=
  match c.rest with
  | '\r' :: '\n' :: rest => (c.need 2).map ({ · with rest := rest, mark := c.mark.nextLine 2 })
  | b :: rest =>
    if isBreak b then
      (c.need 2).map ({ · with rest := rest, mark := c.mark.nextLine 1 })
    else some c
  | [] => some c

/-- Passes blanks and a comment up to the end of the line, which has to follow. -/
def skipLine (c : Cursor) : Option Cursor := do
  let c ← c.skipWhile isBlank
  let c ←
    match c.rest with
    | '#' :: _ => c.skipWhile fun x => !isBreak x
    | _ => some c
  if startsBreak c.rest then c.skipBreak else none

end Cursor

end TopologicalOrder.Yaml
