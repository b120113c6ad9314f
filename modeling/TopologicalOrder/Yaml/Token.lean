/-!
# The tokens of a YAML stream

A stream is a sequence of tokens. Most of them are written as indicators; the
starts and the ends of block collections are not written at all but follow from
the indentation, and a key in a mapping is found only when its colon is met.
-/

namespace TopologicalOrder.Yaml

/-- A token. -/
inductive Token
  /-- The version of the format a document is written in. -/
  | version (major minor : Nat)
  /-- A short form for tags. -/
  | tagHandle (handle : List Char) (expansion : List UInt8)
  /-- The mark `---`. -/
  | documentStart
  /-- The mark `...`. -/
  | documentEnd
  /-- The end of the stream. -/
  | streamEnd
  /-- A sequence whose entries are marked by dashes. -/
  | blockSequenceStart
  /-- A mapping whose entries stand on lines of their own. -/
  | blockMappingStart
  /-- The end of either. -/
  | blockEnd
  /-- An opening bracket. -/
  | flowSequenceStart
  /-- A closing bracket. -/
  | flowSequenceEnd
  /-- An opening brace. -/
  | flowMappingStart
  /-- A closing brace. -/
  | flowMappingEnd
  /-- A dash before an entry. -/
  | blockEntry
  /-- A comma between entries. -/
  | flowEntry
  /-- What follows is a key. -/
  | key
  /-- What follows is the value of a key. -/
  | value
  /-- The name of a value that occurred before. -/
  | alias (name : List Char)
  /-- A name for the value that follows. -/
  | anchor (name : List Char)
  /-- The type of the value that follows. -/
  | tag (handle : List Char) (suffix : List UInt8)
  /-- A text, which is plain if it is neither quoted nor a block. -/
  | scalar (text : List Char) (plain : Bool)
  deriving DecidableEq, Repr

end TopologicalOrder.Yaml
