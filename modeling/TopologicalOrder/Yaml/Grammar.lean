import TopologicalOrder.Yaml.Node
import TopologicalOrder.Yaml.Token.Lexer

/-!
# From tokens to nodes

A document is a node, possibly between marks and after directives. An anchor gives
a name to a node, which an alias repeats once that node is complete.

Only the first document of a stream is read. The tokens after it do not matter,
except that there has to be one: the end of the document is known only then.
-/

namespace TopologicalOrder.Yaml

/-- The nodes that have names. One that is still being read is not there yet. -/
abbrev Anchors := List (List Char × Option Node)

/-- The part of a stream that is being read. -/
structure Reading where
  /-- The tokens that are left. -/
  tokens : List Token
  /-- What the handles stand for. -/
  handles : List (List Char × List UInt8) := []
  /-- The nodes that have names. -/
  anchors : Anchors := []

/-- A reader of a part of a document. -/
abbrev Reader := StateT Reading Option

/-! ## Readers -/

/-- The next token, which has to exist. -/
def peek : Reader Token := fun r => r.tokens.head?.map (·, r)

/-- Passes a token. -/
def pass : Reader Unit := fun r => some ((), { r with tokens := r.tokens.drop 1 })

/-- Refuses what follows. -/
def refuse {α : Type} : Reader α := fun _ => none

/-- Passes a token that has to be the given one. -/
def expect (t : Token) : Reader Unit := do
  if (← peek) = t then pass else refuse

/-- Announces that a node of this name is about to be read, and gives the number of
names before it. -/
def openAnchor (name : Option (List Char)) : Reader Nat := fun r =>
  some (r.anchors.length,
    match name with
    | none => r
    | some n => { r with anchors := (n, none) :: r.anchors })

/-- Gives a name to the node that has been read. A name that occurred within it goes
on to hide it. -/
def closeAnchor (name : Option (List Char)) (before : Nat) (node : Node) : Reader Unit :=
  match name with
  | none => pure ()
  | some n => modify fun r =>
    { r with anchors := r.anchors.set (r.anchors.length - 1 - before) (n, some node) }

/-- The repetition of the node of a name. -/
def aliased (name : List Char) : Reader Node := fun r =>
  match r.anchors.lookup name with
  | some (some n) => some (.alias n, r)
  | _ => none

/-- The tag that a handle and a suffix stand for. -/
def resolveTag (handle : List Char) (suffix : List UInt8) : Reader (List UInt8) := fun r =>
  if handle.isEmpty then some (suffix, r)
  else (r.handles.lookup handle).map fun expansion => (expansion ++ suffix, r)

/-- What stands before a node: its name and its tag. -/
structure Properties where
  /-- The name. -/
  anchor : Option (List Char) := none
  /-- The tag, or nothing. -/
  tag : List UInt8 := []

/-- Reads a name and a tag, in either order. -/
def properties : Reader Properties := do
  match ← peek with
  | .anchor name =>
    pass
    match ← peek with
    | .tag handle suffix =>
      pass
      return { anchor := some name, tag := ← resolveTag handle suffix }
    | _ => return { anchor := some name }
  | .tag handle suffix =>
    pass
    match ← peek with
    | .anchor name =>
      pass
      return { anchor := some name, tag := ← resolveTag handle suffix }
    | _ => return { tag := ← resolveTag handle suffix }
  | _ => return {}

/-! ## Nodes -/

/-- What may come next in a block mapping instead of a node. -/
def endsBlockPart : Token → Bool
  | .key => true
  | .value => true
  | .blockEnd => true
  | _ => false

mutual

/-- Reads a node. In a block it may be a block collection, and after a key even a
sequence that is not indented. -/
def node : Nat → (block unindented : Bool) → Reader Node
  | 0, _, _ => refuse
  | fuel + 1, block, unindented => do
    match ← peek with
    | .alias name =>
      pass
      aliased name
    | _ =>
      let p ← properties
      let before ← openAnchor p.anchor
      let n ← content fuel block unindented p
      closeAnchor p.anchor before n
      return n

/-- Reads what a name and a tag belong to. -/
def content : Nat → (block unindented : Bool) → Properties → Reader Node
  | 0, _, _, _ => refuse
  | fuel + 1, block, unindented, p => do
    match ← peek with
    | .scalar text plain =>
      pass
      return .scalar p.tag plain text
    | .flowSequenceStart =>
      pass
      return .sequence (← flowSequence fuel true [])
    | .flowMappingStart =>
      pass
      return .mapping (← flowMapping fuel true [])
    | .blockEntry =>
      if unindented then return .sequence (← unindentedSequence fuel [])
      else emptyContent p
    | .blockSequenceStart =>
      if block then
        pass
        return .sequence (← blockSequence fuel [])
      else emptyContent p
    | .blockMappingStart =>
      if block then
        pass
        return .mapping (← blockMapping fuel [])
      else emptyContent p
    | _ => emptyContent p

/-- The node of a name or a tag that nothing follows. -/
def emptyContent (p : Properties) : Reader Node :=
  if p.anchor.isSome || !p.tag.isEmpty then return .scalar p.tag true [] else refuse

/-- Reads the entries of a block sequence. -/
def blockSequence : Nat → List Node → Reader (List Node)
  | 0, _ => refuse
  | fuel + 1, items => do
    match ← peek with
    | .blockEntry =>
      pass
      match ← peek with
      | .blockEntry => blockSequence fuel (.empty :: items)
      | .blockEnd => blockSequence fuel (.empty :: items)
      | _ =>
        let n ← node fuel true false
        blockSequence fuel (n :: items)
    | .blockEnd =>
      pass
      return items.reverse
    | _ => refuse

/-- Reads the entries of a sequence that is not indented, up to what is no entry. -/
def unindentedSequence : Nat → List Node → Reader (List Node)
  | 0, _ => refuse
  | fuel + 1, items => do
    match ← peek with
    | .blockEntry =>
      pass
      let t ← peek
      if t = .blockEntry || endsBlockPart t then unindentedSequence fuel (.empty :: items)
      else
        let n ← node fuel true false
        unindentedSequence fuel (n :: items)
    | _ => return items.reverse

/-- Reads a key or a value of a block mapping, which may be missing. -/
def blockPart : Nat → Reader Node
  | 0 => refuse
  | fuel + 1 => do
    if endsBlockPart (← peek) then return .empty else node fuel true true

/-- Reads the entries of a block mapping. -/
def blockMapping : Nat → List (Node × Node) → Reader (List (Node × Node))
  | 0, _ => refuse
  | fuel + 1, entries => do
    match ← peek with
    | .key =>
      pass
      let k ← blockPart fuel
      let v ←
        if (← peek) = .value then do
          pass
          blockPart fuel
        else pure .empty
      blockMapping fuel ((k, v) :: entries)
    | .blockEnd =>
      pass
      return entries.reverse
    | _ => refuse

/-- Reads the value of a key between brackets, up to a comma or the closing
bracket. -/
def flowValue : Nat → (closing : Token) → Reader Node
  | 0, _ => refuse
  | fuel + 1, closing => do
    if (← peek) = .value then
      pass
      let t ← peek
      if t = .flowEntry || t = closing then return .empty else node fuel false false
    else return .empty

/-- Reads the entries of a bracketed sequence. An entry may be a key with its value,
which is a mapping of its own; if the key is missing, what stands in its place is
passed. -/
def flowSequence : Nat → (first : Bool) → List Node → Reader (List Node)
  | 0, _, _ => refuse
  | fuel + 1, first, items => do
    if (← peek) = .flowSequenceEnd then
      pass
      return items.reverse
    if !first then expect .flowEntry
    match ← peek with
    | .flowSequenceEnd =>
      pass
      return items.reverse
    | .key =>
      pass
      let t ← peek
      let k ←
        if t = .value || t = .flowEntry || t = .flowSequenceEnd then do
          pass
          pure .empty
        else node fuel false false
      let v ← flowValue fuel .flowSequenceEnd
      flowSequence fuel false (.mapping [(k, v)] :: items)
    | _ =>
      let n ← node fuel false false
      flowSequence fuel false (n :: items)

/-- Reads the entries of a mapping in braces. A key may stand without a value. -/
def flowMapping : Nat → (first : Bool) → List (Node × Node) → Reader (List (Node × Node))
  | 0, _, _ => refuse
  | fuel + 1, first, entries => do
    if (← peek) = .flowMappingEnd then
      pass
      return entries.reverse
    if !first then expect .flowEntry
    match ← peek with
    | .flowMappingEnd =>
      pass
      return entries.reverse
    | .key =>
      pass
      let t ← peek
      let k ←
        if t = .value || t = .flowEntry || t = .flowMappingEnd then pure .empty
        else node fuel false false
      let v ← flowValue fuel .flowMappingEnd
      flowMapping fuel false ((k, v) :: entries)
    | _ =>
      let k ← node fuel false false
      flowMapping fuel false ((k, .empty) :: entries)

end

/-! ## Documents -/

/-- What the directives before a document say. -/
structure Directives where
  /-- Whether a version was given. -/
  versioned : Bool := false
  /-- What handles stand for. -/
  handles : List (List Char × List UInt8) := []

/-- Whether there were none. -/
def Directives.isEmpty (d : Directives) : Bool := !d.versioned && d.handles.isEmpty

/-- Reads the directives before a document. None may be given twice. -/
def directives : List Token → Directives → Option (Directives × List Token)
  | .version major minor :: rest, d =>
    if d.versioned || major ≠ 1 || minor ≠ 1 then none
    else directives rest { d with versioned := true }
  | .tagHandle handle expansion :: rest, d =>
    if (d.handles.lookup handle).isSome then none
    else directives rest { d with handles := (handle, expansion) :: d.handles }
  | rest, d => some (d, rest)

/-- The handles that need no directive. -/
def standardHandles : List (List Char × List UInt8) :=
  [(['!'], plainBytes ['!']), (['!', '!'], standardTag "")]

/-- Whether a token shows that a document is over. -/
def endsDocument : Token → Bool
  | .version .. => true
  | .tagHandle .. => true
  | .documentStart => true
  | .documentEnd => true
  | .streamEnd => true
  | _ => false

/-- Reads the node of a document and looks for the token after it. A node may be
missing only after the mark of a document. -/
def documentNode (marked : Bool) : Reader Node := do
  let t ← peek
  if marked && endsDocument t then return .empty
  else
    let fuel := 3 * (← get).tokens.length + 8
    let n ← node fuel true false
    let _ ← peek
    return n

/-- **The node of the first document** in a stream of tokens; a stream without
documents has an empty one. Directives have to be followed by the mark of a
document. -/
def Node.ofTokens? (ts : List Token) : Option Node :=
  match directives ts {} with
  | none => none
  | some (d, rest) =>
    let handles := d.handles ++ standardHandles
    match rest with
    | .documentStart :: rest =>
      (documentNode true { tokens := rest, handles := handles }).map Prod.fst
    | _ =>
      if d.isEmpty then
        if rest = [.streamEnd] then some .empty
        else (documentNode false { tokens := rest, handles := handles }).map Prod.fst
      else none

/-- **Reads the first document of a stream.** -/
def parse (s : List UInt8) : Option Value :=
  Node.ofTokens? (tokens (Stream.ofBytes s)) >>= Node.value?

end TopologicalOrder.Yaml
