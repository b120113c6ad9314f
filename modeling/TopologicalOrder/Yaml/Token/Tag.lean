import TopologicalOrder.Yaml.Stream
import TopologicalOrder.Yaml.Token

/-!
# Names, tags and directives

A value may be named by an anchor and be given a type by a tag. A tag is written
out in full between angle brackets, or it is a suffix behind a handle that stands
for the first part of it. A directive before a document says which version of the
format it is written in, or what a handle stands for.

A tag is made of bytes: a character that may not stand in it is written as a
percent sign and two digits for each byte that spells it.
-/

namespace TopologicalOrder.Yaml

/-- **Reads the name** of an anchor or an alias. -/
def anchorName (c : Cursor) : Option (List Char × Cursor) := do
  let (name, c) ← c.span isWord
  let ends := startsBlank c.rest || (c.rest.head?.any "?:,]\x7d%@\x60".toList.contains)
  if !name.isEmpty && ends then some (name, c) else none

/-! ## Tags -/

/-- Whether a character may occur in a tag. -/
def isUri (c : Char) : Bool := isWord c || ";/?:@&=+$,.!~*'()[]%".toList.contains c

/-- The bytes of characters that are spelled with one each. -/
def plainBytes (cs : List Char) : List UInt8 := cs.map fun c => c.toNat.toUInt8

/-- Reads a part of a tag, of which the bytes so far are held backwards. After the
first byte of a longer character, `tails` more of them have to follow. -/
def readUri (read : List UInt8) (tails : Nat) (m : Mark) (w : Window) :
    List Char → Option (List UInt8 × Cursor)
  | [] =>
    match w.need m.index 1 none with
    | none => none
    | some w =>
      if tails = 0 then some (read.reverse, { rest := [], mark := m, window := w }) else none
  | c :: rest =>
    match w.need m.index (if c = '%' then 3 else 1) (some c) with
    | none => none
    | some w =>
      if c = '%' then
        match rest with
        | a :: b :: rest =>
          match hexValue? a, hexValue? b with
          | some x, some y =>
            let octet := (x * 16 + y).toUInt8
            if tails = 0 then
              if utf8Width octet = 0 then none
              else readUri (octet :: read) (utf8Width octet - 1) (m.advance 3) w rest
            else if Text.isTail octet then
              readUri (octet :: read) (tails - 1) (m.advance 3) w rest
            else none
          | _, _ => none
        | _ => none
      else if tails ≠ 0 then none
      else if isUri c then readUri (c.toNat.toUInt8 :: read) 0 m.next w rest
      else some (read.reverse, { rest := c :: rest, mark := m, window := w })

/-- Reads a part of a tag. -/
def uri (c : Cursor) : Option (List UInt8 × Cursor) := readUri [] 0 c.mark c.window c.rest

/-- Reads a handle: an exclamation mark, and a word that may be closed by another
one. -/
def tagHandle (c : Cursor) : Option (List Char × Cursor) := do
  let c ← c.need 1
  match c.rest with
  | '!' :: _ =>
    let (word, c) ← (c.skip 1).span isWord
    match c.rest with
    | '!' :: _ => some ('!' :: word ++ ['!'], c.skip 1)
    | _ => some ('!' :: word, c)
  | _ => none

/-- Whether a handle is closed. -/
def isClosedHandle (handle : List Char) : Bool :=
  1 < handle.length && handle.getLast? = some '!'

/-- Reads the handle and the suffix of a tag. A word that is not closed belongs to
the suffix, and a mark alone is a tag without handle. -/
def tagParts (c : Cursor) : Option (List Char × List UInt8 × Cursor) := do
  let c ← c.need 2
  match c.rest with
  | '!' :: '<' :: _ =>
    let (suffix, c) ← uri (c.skip 2)
    match c.rest with
    | '>' :: _ => if suffix.isEmpty then none else some ([], suffix, c.skip 1)
    | _ => none
  | _ =>
    let (handle, c) ← tagHandle c
    let (suffix, c) ← uri c
    if isClosedHandle handle then
      if suffix.isEmpty then none else some (handle, suffix, c)
    else
      let suffix := plainBytes (handle.drop 1) ++ suffix
      if suffix.isEmpty then some ([], plainBytes ['!'], c) else some (['!'], suffix, c)

/-- **Reads a tag**, which has to be followed by a blank or a line end. -/
def tag (c : Cursor) : Option (Token × Cursor) := do
  let (handle, suffix, c) ← tagParts c
  let c ← c.need 1
  if startsBlank c.rest then some (.tag handle suffix, c) else none

/-! ## Directives -/

/-- Reads a number of one or two digits. -/
def versionNumber (c : Cursor) : Option (Nat × Cursor) := do
  let (ds, c) ← c.span Char.isDigit
  if ds.isEmpty || 2 < ds.length then none
  else some (ds.foldl (fun n d => n * 10 + (d.toNat - 48)) 0, c)

/-- Reads the two numbers of a version. -/
def version (c : Cursor) : Option (Token × Cursor) := do
  let (major, c) ← versionNumber (← c.skipWhile isBlank)
  match c.rest with
  | '.' :: _ =>
    let (minor, c) ← versionNumber (c.skip 1)
    some (.version major minor, c)
  | _ => none

/-- Reads a handle and what it stands for. -/
def tagDirective (c : Cursor) : Option (Token × Cursor) := do
  let (handle, c) ← tagHandle (← c.skipWhile isBlank)
  let (blanks, c) ← c.span isBlank
  if (handle = ['!'] || isClosedHandle handle) && !blanks.isEmpty then
    let (expansion, c) ← uri c
    if !expansion.isEmpty && startsBlank c.rest then some (.tagHandle handle expansion, c) else none
  else none

/-- **Reads a directive** and the rest of its line. The percent sign has been
passed. -/
def directive (c : Cursor) : Option (Token × Cursor) := do
  let (name, c) ← c.span isWord
  if !startsBlank c.rest then none
  else
    let (token, c) ←
      if name = "YAML".toList then version c
      else if name = "TAG".toList then tagDirective c
      else none
    let c ← c.skipLine
    some (token, c)

end TopologicalOrder.Yaml
