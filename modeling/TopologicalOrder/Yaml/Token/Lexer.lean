import TopologicalOrder.Yaml.Text
import TopologicalOrder.Yaml.Token.Tag

/-!
# From characters to tokens

The tokens are found one after the other. Three things are kept in mind on the
way: the columns of the block collections that are open, which a line that
starts further left closes; the depth of brackets, within which indentation does
not count; and, at each depth, the place of the latest token with which a key may
have started. Only the colon shows that it was one: then the token that marks a
key is put before it, and before that one the start of a mapping, if the key
stands deeper than what is open.

A key has to be followed by its colon in the same line and within 1024
characters, so only the tokens from such a place on are unsettled. All others are
handed over as soon as they are found, and a stream that is broken further on
still gives them: they may already hold a whole document. A bracket in which no
key could start is settled once it is closed. It may turn out to be a key even so;
then the tokens that say this come late and stand after it.
-/

namespace TopologicalOrder.Yaml

/-- A place where a key may have started. -/
structure KeyStart where
  /-- The number of tokens before it. -/
  position : Nat
  /-- The place in the stream. -/
  mark : Mark
  /-- Whether nothing but a key may stand there. -/
  required : Bool
  /-- Whether the tokens from there on are held back until it is known. -/
  awaited : Bool := true

/-- Whether the colon of a key may still follow at `m`. -/
def KeyStart.isCurrent (k : KeyStart) (m : Mark) : Bool :=
  m.line ≤ k.mark.line && m.index ≤ k.mark.index + 1024

/-- Whether tokens are held back for a key when the stream has been read up to
`m`. -/
def KeyStart.holds (k : KeyStart) (m : Mark) : Bool :=
  k.awaited && (k.required || k.isCurrent m)

/-- What is known about keys at one depth of brackets. -/
structure Level where
  /-- Where a key may have started. -/
  start : Option KeyStart := none
  /-- Whether the bracket that was opened last may start a key itself, and no key
  could start within it so far. -/
  lone : Bool := false

/-- Hands over the tokens that are held back for the key of a level. -/
def Level.release (v : Level) : Level :=
  { v with start := v.start.map ({ · with awaited := false }) }

/-- How many brackets, and how many block collections, may be open at once. -/
def maxDepth : Nat := 10000

/-- A stream that is being read. -/
structure Lexer where
  /-- What is left of it. -/
  cursor : Cursor
  /-- The tokens so far. -/
  tokens : Array Token := #[]
  /-- The columns of the open block collections, the innermost one first. -/
  indents : List Nat := []
  /-- The keys at the depth that is reached. -/
  level : Level := {}
  /-- Those outside of each open bracket, the innermost one first. -/
  outer : List Level := []
  /-- Whether a key may start at the next token. -/
  keyAllowed : Bool := true
  /-- Where the last token ended. -/
  passed : Mark := {}
  /-- Whether the end of the stream was met. -/
  finished : Bool := false

namespace Lexer

/-- Whether a bracket is open. -/
def inFlow (l : Lexer) : Bool := !l.outer.isEmpty

/-- The column of the innermost block collection. -/
def indent (l : Lexer) : Option Nat := l.indents.head?

/-- Adds a token. -/
def emit (l : Lexer) (t : Token) : Lexer := { l with tokens := l.tokens.push t }

/-- Passes `n` characters. -/
def advance (l : Lexer) (n : Nat) : Lexer := { l with cursor := l.cursor.skip n }

/-- Says whether a key may start next. -/
def allowKey (l : Lexer) (b : Bool) : Lexer := { l with keyAllowed := b }

/-- Adds a token at a place among the others, or after all of them. -/
def put (l : Lexer) (place : Option Nat) (t : Token) : Lexer :=
  match place with
  | some i => { l with tokens := l.tokens.insertIdxIfInBounds i t }
  | none => l.emit t

/-! ## Keys -/

/-- The number of tokens that have been handed over when the stream has been read up
to `m`. -/
def settled (l : Lexer) (m : Mark) : Nat :=
  (l.level :: l.outer).foldl
    (fun n v =>
      match v.start with
      | some k => if k.holds m then min n k.position else n
      | none => n)
    l.tokens.size

/-- Gives up the latest place where a key may have started. -/
def dropStart (l : Lexer) : Option Lexer :=
  match l.level.start with
  | some k =>
    if k.required then none else some { l with level := { l.level with start := none } }
  | none => some l

/-- Notes that a key may start here. A token at the very column of the innermost
block has to be one. -/
def noteStart (l : Lexer) : Option Lexer :=
  if l.keyAllowed then
    let m := l.cursor.mark
    let required := !l.inFlow && l.indent = some m.column
    let k : KeyStart := { position := l.tokens.size, mark := m, required := required }
    l.dropStart.map ({ · with level := { start := some k } })
  else some l

/-! ## Blocks -/

/-- Closes the block collections whose columns are so. -/
def closeBlocks (l : Lexer) (p : Nat → Bool) : Lexer :=
  if l.inFlow then l
  else
    let closed := l.indents.takeWhile p
    { l with
      tokens := l.tokens ++ Array.replicate closed.length Token.blockEnd
      indents := l.indents.drop closed.length }

/-- Opens a block collection at a column, if the innermost one is not as deep.
Its token is put at a place among the others. -/
def openBlock (l : Lexer) (column : Nat) (place : Option Nat) (t : Token) : Option Lexer :=
  if l.inFlow || l.indent.any (column ≤ ·) then some l
  else if maxDepth ≤ l.indents.length then none
  else some { l.put place t with indents := column :: l.indents }

/-- Opens a block collection at the place that is reached, where one may start
only if a key may. -/
def openBlockHere (l : Lexer) (t : Token) : Option Lexer :=
  if l.inFlow then some l
  else if l.keyAllowed then l.openBlock l.cursor.mark.column none t
  else none

/-! ## Each kind of token -/

/-- The end of the stream, which ends the last line too. -/
def endStream (l : Lexer) : Option Lexer :=
  (l.closeBlocks fun _ => true).dropStart.map fun l =>
    let m := l.cursor.mark
    let c := { l.cursor with mark := if m.column = 0 then m else m.nextLine 0 }
    { (l.allowKey false).emit .streamEnd with cursor := c, finished := true }

/-- The mark before or after a document. -/
def marker (l : Lexer) (t : Token) : Option Lexer :=
  (l.closeBlocks fun _ => true).dropStart.map fun l => ((l.allowKey false).advance 3).emit t

/-- A directive. -/
def takeDirective (l : Lexer) : Option Lexer := do
  let l ← (l.closeBlocks fun _ => true).dropStart
  let (t, c) ← directive (l.cursor.skip 1)
  some { (l.allowKey false).emit t with cursor := c }

/-- An opening bracket. -/
def openFlow (l : Lexer) (t : Token) : Option Lexer :=
  if maxDepth ≤ l.outer.length then none
  else
    let lone := l.keyAllowed
    l.noteStart.map fun l =>
      let l := { l with level := { lone := lone }, outer := l.level :: l.outer, keyAllowed := true }
      (l.advance 1).emit t

/-- A closing bracket. -/
def closeFlow (l : Lexer) (t : Token) : Option Lexer :=
  l.dropStart.map fun l =>
    let l :=
      match l.outer with
      | v :: outer => { l with level := if l.level.lone then v.release else v, outer := outer }
      | [] => l
    ((l.allowKey false).advance 1).emit t

/-- A comma. -/
def flowEntry (l : Lexer) : Option Lexer :=
  l.dropStart.map fun l => ((l.allowKey true).advance 1).emit .flowEntry

/-- A dash. -/
def blockEntry (l : Lexer) : Option Lexer := do
  let l ← l.openBlockHere .blockSequenceStart
  let l ← l.dropStart
  some (((l.allowKey true).advance 1).emit .blockEntry)

/-- A question mark. -/
def explicitKey (l : Lexer) : Option Lexer := do
  let l ← l.openBlockHere .blockMappingStart
  let l ← l.dropStart
  some (((l.allowKey (!l.inFlow)).advance 1).emit .key)

/-- A colon after a key that started at `k`. What says that it is one comes before
it, unless it has been handed over. -/
def valueAfter (l : Lexer) (k : KeyStart) : Option Lexer := do
  let place := if k.position < l.settled l.passed then none else some k.position
  let l ← (l.put place .key).openBlock k.mark.column place .blockMappingStart
  let l := { l with level := { l.level with start := none } }
  some (((l.allowKey false).advance 1).emit .value)

/-- A colon without such a key. -/
def valueAlone (l : Lexer) : Option Lexer := do
  let l ← l.openBlockHere .blockMappingStart
  some (((l.allowKey (!l.inFlow)).advance 1).emit .value)

/-- A colon. -/
def value (l : Lexer) : Option Lexer :=
  match l.level.start with
  | some k =>
    if k.isCurrent l.cursor.mark then l.valueAfter k else l.dropStart >>= valueAlone
  | none => l.valueAlone

/-- A token with which a key may start. -/
def keyable (l : Lexer) (read : Cursor → Option (Token × Cursor)) : Option Lexer := do
  let l ← l.noteStart
  let (t, c) ← read l.cursor
  some { (l.allowKey false).emit t with cursor := c }

/-- A text in quotes. -/
def quotedText (l : Lexer) (single : Bool) : Option Lexer :=
  l.keyable fun c => (quoted single (c.skip 1)).map fun (text, c) => (.scalar text false, c)

/-- A plain text. A key may follow it in a later line. -/
def plainText (l : Lexer) : Option Lexer := do
  let l ← l.noteStart
  let p ← plain l.inFlow ((l.indent.map (· + 1)).getD 0) l.cursor
  some { (l.allowKey p.endsLine).emit (.scalar p.text true) with cursor := p.cursor }

/-- A block of text. -/
def blockText (l : Lexer) (folded : Bool) : Option Lexer := do
  let l ← l.dropStart
  let (text, c) ← block folded l.indent (l.cursor.skip 1)
  some { (l.allowKey true).emit (.scalar text false) with cursor := c }

/-! ## The next token -/

/-- Passes blanks, comments and line ends, and says whether a key may start after
them. A tab is a blank only where no key may start. While the part of the stream
that is at hand begins with a byte order mark, the first character of a line is
taken for one and passed; `fresh` says that it comes next. -/
def toToken (flow allowed comment fresh : Bool) (m : Mark) (w : Window) :
    List Char → Option (Bool × Cursor)
  | [] =>
    match w.need m.index 1 none with
    | none => none
    | some w => some (allowed, { rest := [], mark := m, window := w })
  | c :: rest =>
    match w.need m.index 1 (some c) with
    | none => none
    | some w =>
      if fresh && m.column = 0 && w.marked then toToken flow allowed false false m.next w rest
      else if isBreak c then
        match w.need m.index 2 (some c) with
        | none => none
        | some w =>
          match c, rest with
          | '\r', '\n' :: rest => toToken flow (allowed || !flow) false true (m.nextLine 2) w rest
          | _, rest => toToken flow (allowed || !flow) false true (m.nextLine 1) w rest
      else if comment || c = '#' then toToken flow allowed true false m.next w rest
      else if c = ' ' || (c = '\t' && (flow || !allowed)) then
        toToken flow allowed false false m.next w rest
      else some (allowed, { rest := c :: rest, mark := m, window := w })

/-- Whether a plain text may start with `c`. -/
def startsPlain (flow : Bool) (c : Char) (rest : List Char) : Bool :=
  if c = '-' then true
  else if c = '?' || c = ':' then !flow && !startsBlank rest
  else !(isBlank c || ",[]\x7b\x7d#&*!|>'\"%@\x60".toList.contains c)

/-- Reads the token that starts with `c`. -/
def read (l : Lexer) (c : Char) (rest : List Char) : Option Lexer :=
  let atStart := l.cursor.mark.column = 0
  let flow := l.inFlow
  if atStart && c = '%' then l.takeDirective
  else if atStart && startsMarker (c :: rest) then
    l.marker (if c = '-' then .documentStart else .documentEnd)
  else if c = '[' then l.openFlow .flowSequenceStart
  else if c = '\x7b' then l.openFlow .flowMappingStart
  else if c = ']' then l.closeFlow .flowSequenceEnd
  else if c = '\x7d' then l.closeFlow .flowMappingEnd
  else if c = ',' then l.flowEntry
  else if c = '-' && startsBlank rest then l.blockEntry
  else if c = '?' && (flow || startsBlank rest) then l.explicitKey
  else if c = ':' && (flow || startsBlank rest) then l.value
  else if c = '*' then
    l.keyable fun c => (anchorName (c.skip 1)).map fun (name, c) => (.alias name, c)
  else if c = '&' then
    l.keyable fun c => (anchorName (c.skip 1)).map fun (name, c) => (.anchor name, c)
  else if c = '!' then l.keyable tag
  else if c = '|' && !flow then l.blockText false
  else if c = '>' && !flow then l.blockText true
  else if c = '\'' then l.quotedText true
  else if c = '"' then l.quotedText false
  else if startsPlain flow c rest then l.plainText
  else none

/-- **Finds the next token**, and those that its indentation brings along. -/
def next (l : Lexer) : Option Lexer := do
  let c ← l.cursor.need 1
  let (allowed, c) ← toToken l.inFlow l.keyAllowed false true c.mark c.window c.rest
  let c ← c.need 4
  let l := { l with cursor := c, keyAllowed := allowed, passed := l.cursor.mark }
  let l := l.closeBlocks (c.mark.column < ·)
  match c.rest with
  | [] => l.endStream
  | x :: rest => l.read x rest

/-- The tokens that have been handed over. -/
def handed (l : Lexer) : List Token := l.tokens.toList.take (l.settled l.cursor.mark)

/-- Finds tokens as long as there are any. Each but the last takes a character at
least, so there is fuel for all. -/
def run : Nat → Lexer → List Token
  | 0, l => l.handed
  | fuel + 1, l =>
    match l.next with
    | none => l.handed
    | some l => if l.finished then l.handed else run fuel l

end Lexer

/-- **The tokens of a stream**, as far as it is well-formed. -/
def tokens (s : Stream) : List Token :=
  Lexer.run (s.text.length + 1) { cursor := Cursor.ofStream s }

end TopologicalOrder.Yaml
