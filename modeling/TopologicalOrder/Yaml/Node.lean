import TopologicalOrder.Yaml.Scalar

/-!
# Nodes

A node is a value as it is written: a scalar is a text that still has to be looked
at, an alias stands for a node that occurred before, and a key may ask for the
entries of other mappings to be merged into its own. `Node.value?` gives the value
that is meant. No mapping may have a key twice, merged ones included.

A short text can stand for a very large value, because an alias may repeat a node
that holds aliases itself. `Tally` counts the nodes on the way, and separately
those that are met only through an alias. A value is refused when these make up
too large a part.
-/

namespace TopologicalOrder.Yaml

/-- **A value as it is written.** -/
inductive Node
  /-- A text, plain or not, with its tag, which is empty if there is none. -/
  | scalar (tag : List UInt8) (plain : Bool) (text : List Char)
  /-- Nodes in order. -/
  | sequence (items : List Node)
  /-- Keys and their values. -/
  | mapping (entries : List (Node × Node))
  /-- A node that is repeated. -/
  | alias (target : Node)

namespace Node

/-- The node that nothing stands for. -/
def empty : Node := .scalar [] true []

/-- Whether a node, as a key, asks for a merge. -/
def isMerge : Node → Bool
  | .scalar tag plain text =>
    text = ['<', '<'] &&
      ((tag.isEmpty && plain) || tag = Text.bytes "!" || tag = standardTag "merge")
  | _ => false

end Node

/-! ## Counting nodes -/

/-- How many nodes have been met, and how many of them through an alias. -/
structure Tally where
  /-- All nodes. -/
  met : Nat := 0
  /-- Those that are part of a repetition. -/
  repeated : Nat := 0

namespace Tally

/-- Up to this number of nodes, 99 of 100 may be repetitions. -/
def small : Nat := 400000

/-- From this number of nodes on, 10 of 100 may be repetitions. -/
def large : Nat := 4000000

/-- Whether too many nodes are repetitions. The part that is allowed falls evenly
between a small and a large number of nodes. A hundred repetitions are always
allowed, and so are all among a thousand nodes. -/
def isExcessive (t : Tally) : Bool :=
  100 < t.repeated && 1000 < t.met &&
    (if t.met ≤ small then 99 * t.met < 100 * t.repeated
      else if large ≤ t.met then 10 * t.met < 100 * t.repeated
      else
        (99 * (large - small) - 89 * (t.met - small)) * t.met <
          100 * (large - small) * t.repeated)

/-- Meets a node. -/
def add (t : Tally) (repeated : Bool) : Tally :=
  { met := t.met + 1, repeated := t.repeated + if repeated then 1 else 0 }

end Tally

/-! ## The value of a node -/

/-- A step on the way to a value. -/
abbrev Counting := StateT Tally Option

/-- Meets a node, which is a repetition or not. -/
def visit (repeated : Bool) : Counting Unit := fun t =>
  let t := t.add repeated
  if t.isExcessive then none else some ((), t)

/-- Adds an entry whose key must be new. -/
def addEntry (entries : List (Value × Value)) (k v : Value) : Option (List (Value × Value)) :=
  if k.isScalar && !entries.any (fun e => e.1.isSame k) then some ((k, v) :: entries) else none

namespace Node

mutual

/-- The value of a node. -/
def decode (repeated : Bool) : Node → Counting Value
  | .scalar tag plain text => do
    visit repeated
    ofScalar tag plain text
  | .sequence items => do
    visit repeated
    return .sequence (← decodeItems repeated [] items)
  | .mapping entries => do
    visit repeated
    return .mapping (← decodeEntries repeated [] entries).reverse
  | .alias target => do
    visit repeated
    decode true target

/-- The values of nodes in order; those before are held backwards. -/
def decodeItems (repeated : Bool) (values : List Value) : List Node → Counting (List Value)
  | [] => return values.reverse
  | n :: rest => do
    let v ← decode repeated n
    decodeItems repeated (v :: values) rest

/-- The entries of a mapping, after those before, all of them backwards. -/
def decodeEntries (repeated : Bool) (entries : List (Value × Value)) :
    List (Node × Node) → Counting (List (Value × Value))
  | [] => return entries
  | (k, v) :: rest => do
    if k.isMerge then
      let entries ← merge repeated entries v
      decodeEntries repeated entries rest
    else
      let key ← decode repeated k
      let value ← decode repeated v
      let entries ← addEntry entries key value
      decodeEntries repeated entries rest

/-- Merges the entries of a mapping, or of each mapping in a sequence that is
written out. -/
def merge (repeated : Bool) (entries : List (Value × Value)) :
    Node → Counting (List (Value × Value))
  | .sequence items => mergeAll repeated entries items
  | .mapping more => do
    visit repeated
    decodeEntries repeated entries more
  | .alias (.mapping more) => do
    visit repeated
    visit true
    decodeEntries true entries more
  | _ => failure

/-- Merges the entries of mappings, the last one first. -/
def mergeAll (repeated : Bool) (entries : List (Value × Value)) :
    List Node → Counting (List (Value × Value))
  | [] => return entries
  | .mapping more :: rest => do
    let entries ← mergeAll repeated entries rest
    visit repeated
    decodeEntries repeated entries more
  | .alias (.mapping more) :: rest => do
    let entries ← mergeAll repeated entries rest
    visit repeated
    visit true
    decodeEntries true entries more
  | _ => failure

end

/-- **The value that a node stands for.** The document around it counts as a node
too. -/
def value? (n : Node) : Option Value := (decode false n { met := 1 }).map Prod.fst

end Node

end TopologicalOrder.Yaml
