import TopologicalOrder.Yaml.Stream

/-!
# Texts in a YAML stream

A text is written plainly, in quotes, or as an indented block. In the first two
a line end counts as a space and each empty line after it as a line end;
`Gap` keeps track of what stands between two pieces of a text until it is known
whether the text goes on. In a block the line ends are kept, or folded likewise
where neither of the two lines starts with a blank, and an indicator says what
becomes of the last ones.
-/

namespace TopologicalOrder.Yaml

/-- What was met since the last piece of a text. -/
inductive Gap
  /-- Blanks within a line, the latest one first. -/
  | blanks (bs : List Char)
  /-- Line ends: the first one, unless it was escaped, and the others, the latest
  one first. -/
  | lines (first : Option Char) (more : List Char)

namespace Gap

/-- Nothing at all. -/
def none : Gap := .blanks []

/-- Whether anything was met. -/
def isEmpty : Gap → Bool
  | .blanks bs => bs.isEmpty
  | .lines .. => false

/-- Whether a line end was met. -/
def spansLines : Gap → Bool
  | .blanks _ => false
  | .lines .. => true

/-- Meets a blank, which counts only within a line. -/
def addBlank (c : Char) : Gap → Gap
  | .blanks bs => .blanks (c :: bs)
  | .lines first more => .lines first more

/-- Meets a line end, which makes the blanks before it void. -/
def addBreak (c : Char) : Gap → Gap
  | .blanks _ => .lines (some c) []
  | .lines first more => .lines first (c :: more)

/-- Puts what the gap stands for after a text, which is held backwards: the
blanks, or a space for a single line feed. -/
def close (text : List Char) : Gap → List Char
  | .blanks bs => bs ++ text
  | .lines (some '\n') [] => ' ' :: text
  | .lines (some '\n') more => more ++ text
  | .lines (some c) more => more ++ c :: text
  | .lines Option.none more => more ++ text

end Gap

/-! ## Quoted texts -/

/-- What follows a backslash in double quotes. -/
inductive Escape
  /-- One character. -/
  | char (c : Char)
  /-- A code point with so many hexadecimal digits. -/
  | code (digits : Nat)

/-- The meaning of the character after a backslash. -/
def escape? : Char → Option Escape
  | '0' => some (.char '\x00')
  | 'a' => some (.char '\x07')
  | 'b' => some (.char '\x08')
  | 't' => some (.char '\t')
  | '\t' => some (.char '\t')
  | 'n' => some (.char '\n')
  | 'v' => some (.char '\x0b')
  | 'f' => some (.char '\x0c')
  | 'r' => some (.char '\r')
  | 'e' => some (.char '\x1b')
  | ' ' => some (.char ' ')
  | '"' => some (.char '"')
  | '\'' => some (.char '\'')
  | '\\' => some (.char '\\')
  | 'N' => some (.char '\u0085')
  | '_' => some (.char '\u00a0')
  | 'L' => some (.char '\u2028')
  | 'P' => some (.char '\u2029')
  | 'x' => some (.code 2)
  | 'u' => some (.code 4)
  | 'U' => some (.code 8)
  | _ => none

/-- The character of a code point, unless it is a surrogate or too large. -/
def charOfCode? (n : Nat) : Option Char :=
  if h : n.isValidChar then some (Char.ofNatAux n h) else none

/-- A code point that is being read: how many digits are left and what the
others gave. -/
structure Code where
  /-- The digits that are left. -/
  left : Nat
  /-- The value of the digits read. -/
  value : Nat

/-- Where a reader of a text in one line or several stands. -/
inductive Stage
  /-- Before the text. -/
  | start
  /-- After a piece of it. -/
  | text
  /-- After a blank or a line end. -/
  | gap
  /-- After a line end that was escaped. -/
  | cut
  deriving DecidableEq

/-- How many characters a reader asks for when it comes to the next one. -/
def Stage.demand : Stage → Nat
  | .start => 4
  | .text => 2
  | .gap => 1
  | .cut => 1

/-- How many characters it asks for, besides, when it goes on with the text after a
gap. -/
def Stage.resumeDemand : Stage → Nat
  | .start => 0
  | .text => 0
  | .gap => 4
  | .cut => 4

/-- Reads the rest of a quoted text. The text so far is held backwards. -/
def readQuoted (single : Bool) (text : List Char) (gap : Gap) (stage : Stage)
    (code : Option Code) (m : Mark) (w : Window) : List Char → Option (List Char × Cursor)
  | [] => none
  | c :: rest =>
    match code with
    | some { left := left, value := value } =>
      match hexValue? c with
      | none => none
      | some d =>
        let value := value * 16 + d
        if left ≤ 1 then
          match charOfCode? value with
          | none => none
          | some x => readQuoted single (x :: text) .none .text none m.next w rest
        else
          let code : Code := { left := left - 1, value := value }
          readQuoted single text .none .text (some code) m.next w rest
    | none =>
      match w.need m.index stage.demand (some c) with
      | none => none
      | some w =>
        if isBlank c then readQuoted single text (gap.addBlank c) .gap none m.next w rest
        else if isBreak c then
          match w.need m.index 2 (some c) with
          | none => none
          | some w =>
            let gap := gap.addBreak (breakChar c)
            match c, rest with
            | '\r', '\n' :: rest => readQuoted single text gap .gap none (m.nextLine 2) w rest
            | _, rest => readQuoted single text gap .gap none (m.nextLine 1) w rest
        else if stage = .cut && !single && c = '"' then
          some ((gap.close text).reverse, { rest := rest, mark := m.next, window := w })
        else
          match w.need m.index stage.resumeDemand (some c) with
          | none => none
          | some w =>
            let text := gap.close text
            if m.column = 0 && startsMarker (c :: rest) then none
            else if single then
              if c = '\'' then
                match rest with
                | '\'' :: rest =>
                  readQuoted single ('\'' :: text) .none .text none (m.advance 2) w rest
                | _ => some (text.reverse, { rest := rest, mark := m.next, window := w })
              else readQuoted single (c :: text) .none .text none m.next w rest
            else if c = '"' then some (text.reverse, { rest := rest, mark := m.next, window := w })
            else if c = '\\' then
              match rest with
              | [] => none
              | e :: rest =>
                if isBreak e then
                  match w.need m.index 3 (some c) with
                  | none => none
                  | some w =>
                    let cut : Gap := .lines none []
                    match e, rest with
                    | '\r', '\n' :: rest =>
                      readQuoted single text cut .cut none (m.next.nextLine 2) w rest
                    | _, rest => readQuoted single text cut .cut none (m.next.nextLine 1) w rest
                else
                  match escape? e with
                  | none => none
                  | some (.char x) =>
                    readQuoted single (x :: text) .none .text none (m.advance 2) w rest
                  | some (.code n) =>
                    match w.need (m.index + 2) n rest.head? with
                    | none => none
                    | some w =>
                      let code : Code := { left := n, value := 0 }
                      readQuoted single text .none .text (some code) (m.advance 2) w rest
            else readQuoted single (c :: text) .none .text none m.next w rest

/-- **Reads a text in quotes**, the first of which has been passed. -/
def quoted (single : Bool) (c : Cursor) : Option (List Char × Cursor) :=
  readQuoted single [] .none .start none c.mark c.window c.rest

/-! ## Plain texts -/

/-- Whether a plain text ends before `c`. In a flow collection the indicators of
such collections end it. -/
def endsPlain (flow : Bool) (c : Char) (rest : List Char) : Bool :=
  (c = ':' && startsBlank rest) || (flow && [',', '?', '[', ']', '\x7b', '\x7d'].contains c)

/-- A plain text, whether a line end followed it, and where it ends. -/
structure PlainText where
  /-- The text. -/
  text : List Char
  /-- Whether it was ended in a later line. -/
  endsLine : Bool
  /-- What follows. -/
  cursor : Cursor

/-- Reads the rest of a plain text. Outside of flow collections it goes on in the
next line only from column `indent` on. -/
def readPlain (flow : Bool) (indent : Nat) (text : List Char) (gap : Gap) (stage : Stage)
    (m : Mark) (w : Window) : List Char → Option PlainText
  | [] =>
    match w.need m.index stage.demand none with
    | none => none
    | some w =>
      let outdented := !gap.isEmpty && !flow && m.column < indent
      match w.need m.index (if outdented then 0 else stage.resumeDemand) none with
      | none => none
      | some w => some
        { text := text.reverse, endsLine := gap.spansLines
          cursor := { rest := [], mark := m, window := w } }
  | c :: rest =>
    match w.need m.index stage.demand (some c) with
    | none => none
    | some w =>
      if isBlank c then
        if gap.spansLines && m.column < indent && c = '\t' then none
        else readPlain flow indent text (gap.addBlank c) .gap m.next w rest
      else if isBreak c then
        match w.need m.index 2 (some c) with
        | none => none
        | some w =>
          let gap := gap.addBreak (breakChar c)
          match c, rest with
          | '\r', '\n' :: rest => readPlain flow indent text gap .gap (m.nextLine 2) w rest
          | _, rest => readPlain flow indent text gap .gap (m.nextLine 1) w rest
      else
        let resumes := !gap.isEmpty
        let outdented := resumes && !flow && m.column < indent
        match w.need m.index (if outdented then 0 else stage.resumeDemand) (some c) with
        | none => none
        | some w =>
          let marker := m.column = 0 && startsMarker (c :: rest)
          if outdented || marker || (resumes && c = '#') || endsPlain flow c rest then some
            { text := text.reverse, endsLine := gap.spansLines
              cursor := { rest := c :: rest, mark := m, window := w } }
          else readPlain flow indent (c :: gap.close text) .none .text m.next w rest

/-- **Reads a plain text.** -/
def plain (flow : Bool) (indent : Nat) (c : Cursor) : Option PlainText :=
  readPlain flow indent [] .none .start c.mark c.window c.rest

/-! ## Blocks -/

/-- What becomes of the line ends at the end of a block. -/
inductive Chomping
  /-- They are dropped. -/
  | strip
  /-- One is kept. -/
  | clip
  /-- All are kept. -/
  | keep
  deriving DecidableEq

/-- Passes empty lines and indentation before a block. The indentation is the
deepest one met if `indent` is zero; a tab in it is an error. The line ends are
held backwards. -/
def leadingBreaks (indent deepest : Nat) (breaks : List Char) (m : Mark) (w : Window) :
    List Char → Option (Nat × List Char × Cursor)
  | [] =>
    match w.need m.index 1 none with
    | none => none
    | some w => some (max deepest m.column, breaks, { rest := [], mark := m, window := w })
  | c :: rest =>
    match w.need m.index 1 (some c) with
    | none => none
    | some w =>
      let inside := indent = 0 || m.column < indent
      if inside && c = ' ' then leadingBreaks indent deepest breaks m.next w rest
      else
        let deepest := max deepest m.column
        if inside && c = '\t' then none
        else if isBreak c then
          match w.need m.index 2 (some c) with
          | none => none
          | some w =>
            let breaks := breakChar c :: breaks
            match c, rest with
            | '\r', '\n' :: rest => leadingBreaks indent deepest breaks (m.nextLine 2) w rest
            | _, rest => leadingBreaks indent deepest breaks (m.nextLine 1) w rest
        else some (deepest, breaks, { rest := c :: rest, mark := m, window := w })

/-- A block that is being read. -/
structure Block where
  /-- The text so far, backwards. -/
  text : List Char := []
  /-- The end of the last line. -/
  lineEnd : Option Char := none
  /-- The empty lines after it, backwards. -/
  breaks : List Char
  /-- Whether the last line started with a blank. -/
  indented : Bool := false

/-- Starts the next line of a block, which begins with `c`: the line end before it
is kept, or folded into a space. -/
def Block.startLine (b : Block) (folded : Bool) (c : Char) : Block :=
  let folds := folded && !b.indented && !isBlank c && b.lineEnd = some '\n'
  let text :=
    if folds then (if b.breaks.isEmpty then ' ' :: b.text else b.text)
    else b.lineEnd.toList ++ b.text
  { text := c :: (b.breaks ++ text), lineEnd := none, breaks := [], indented := isBlank c }

/-- Ends a block. -/
def Block.finish (b : Block) (chomping : Chomping) : List Char :=
  let text := if chomping = .strip then b.text else b.lineEnd.toList ++ b.text
  (if chomping = .keep then b.breaks ++ text else text).reverse

/-- Reads the lines of a block with the given indentation; `inLine` says whether
the next character belongs to a line that has been started. -/
def readBlock (folded : Bool) (chomping : Chomping) (indent : Nat) (inLine : Bool) (b : Block)
    (m : Mark) (w : Window) : List Char → Option (List Char × Cursor)
  | [] =>
    match w.need m.index (if inLine then 2 else 1) none with
    | none => none
    | some w => some (b.finish chomping, { rest := [], mark := m, window := w })
  | c :: rest =>
    match w.need m.index 1 (some c) with
    | none => none
    | some w =>
      if isBreak c then
        match w.need m.index 2 (some c) with
        | none => none
        | some w =>
          let b :=
            if inLine then { b with lineEnd := some (breakChar c) }
            else { b with breaks := breakChar c :: b.breaks }
          match c, rest with
          | '\r', '\n' :: rest => readBlock folded chomping indent false b (m.nextLine 2) w rest
          | _, rest => readBlock folded chomping indent false b (m.nextLine 1) w rest
      else if inLine then
        readBlock folded chomping indent true { b with text := c :: b.text } m.next w rest
      else if m.column < indent && c = ' ' then
        readBlock folded chomping indent false b m.next w rest
      else if m.column < indent && c = '\t' then none
      else if m.column = indent then
        readBlock folded chomping indent true (b.startLine folded c) m.next w rest
      else some (b.finish chomping, { rest := c :: rest, mark := m, window := w })

/-- Reads the sign that says what becomes of the last line ends, if there is one. -/
def chompingSign (c : Cursor) : Option (Option Chomping × Cursor) := do
  let c ← c.need 1
  match c.rest with
  | '+' :: _ => some (some .keep, c.skip 1)
  | '-' :: _ => some (some .strip, c.skip 1)
  | _ => some (none, c)

/-- Reads the digit that says how deep the block is indented, if there is one; it
is not zero. -/
def increment (c : Cursor) : Option (Nat × Cursor) := do
  let c ← c.need 1
  match c.rest with
  | d :: _ =>
    if d = '0' then none
    else if d.isDigit then some (d.toNat - 48, c.skip 1)
    else some (0, c)
  | [] => some (0, c)

/-- Reads the two indicators of a block, in either order. -/
def blockHeader (c : Cursor) : Option (Chomping × Nat × Cursor) := do
  let (sign?, c) ← chompingSign c
  let (n, c) ← increment c
  match sign? with
  | some sign => some (sign, n, c)
  | none =>
    if n = 0 then some (.clip, 0, c)
    else
      let (sign?, c) ← chompingSign c
      some (sign?.getD .clip, n, c)

/-- **Reads a block** inside a collection indented to column `outer`, or outside
of all. Its first indicator has been passed. -/
def block (folded : Bool) (outer : Option Nat) (c : Cursor) : Option (List Char × Cursor) := do
  let (chomping, n, c) ← blockHeader c
  let c ← c.skipLine
  let least := match outer with
    | some i => i + 1
    | none => 1
  let given := if n = 0 then 0 else outer.getD 0 + n
  let (deepest, breaks, c) ← leadingBreaks given 0 [] c.mark c.window c.rest
  let indent := if given = 0 then max deepest least else given
  readBlock folded chomping indent false { breaks := breaks } c.mark c.window c.rest

end TopologicalOrder.Yaml
