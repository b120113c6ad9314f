import TopologicalOrder.Graph.Build
import TopologicalOrder.Number.Floating
import TopologicalOrder.Yaml.Grammar

/-!
# Graphs as documents

A graph can be written as a mapping with up to three fields: `vertices`, the
number of them; `loops`, whether an edge may lead from a vertex to itself; and
`edges`, a mapping from vertices to the lists of their successors. If the number
of vertices is left out, it is the least one that suffices.

A document is strict: a field that is none of these is an error, and so is a value
of another kind. A float counts as a whole number if it is one. A field without
value is like one that is left out.
-/

namespace TopologicalOrder

open Yaml (Value)

/-- **A graph as a document describes it.** -/
structure Document where
  /-- The number of vertices, if it is given. -/
  vertices : Option Int := none
  /-- Whether loops are allowed. -/
  loops : Bool := false
  /-- The successors of vertices. -/
  edges : Adjacency := .empty

/-! ## Building the graph -/

/-- The least number of vertices that an adjacency needs. -/
def Adjacency.inferOrder (a : Adjacency) : Int :=
  a.entries.foldl
    (fun n e => e.2.foldl (fun n v => max n (orderFor v)) (max n (orderFor e.1))) 0

namespace Document

/-- The number of vertices, which is inferred if it is not given. -/
def order (d : Document) : Int :=
  match d.vertices with
  | some n => n
  | none => d.edges.inferOrder

/-- The permissions of the graph: those of the caller, after the document's own. -/
def permissions (d : Document) (ps : List Permission) : List Permission :=
  if d.loops then .loops :: ps else ps

/-- **The graph of a document**, with what the caller permits beyond it. -/
def build (d : Document) (ps : List Permission) : Except GraphError Graph :=
  Graph.ofAdjacency d.order d.edges (d.permissions ps)

/-! ## Reading the fields -/

/-- A field of a document. -/
inductive Field
  /-- The number of vertices. -/
  | vertices
  /-- Whether loops are allowed. -/
  | loops
  /-- The successors of vertices. -/
  | edges
  deriving DecidableEq

/-- A letter regardless of case; the long s is a letter s. -/
def foldCase (c : Char) : Char := if c = '\u017f' then 's' else c.toLower

/-- The field of a name, in any case. -/
def Field.ofName? (name : String) : Option Field :=
  let folded := name.toList.map foldCase
  if folded = "vertices".toList then some .vertices
  else if folded = "loops".toList then some .loops
  else if folded = "edges".toList then some .edges
  else none

/-- The text of a key. -/
def keyText : Value → Option String
  | .text s => some s
  | .int n => some (toString n)
  | .bool b => some (if b then "true" else "false")
  | .float x => some (Number.showSingle x)
  | _ => none

/-- The entries of a mapping with the texts of their keys, in the order of these. -/
def keyedEntries (entries : List (Value × Value)) : Option (List (String × Value)) :=
  let named := entries.mapM fun e => (keyText e.1).map fun k => (k, e.2)
  named.map fun es => es.mergeSort fun a b => !decide (b.1 < a.1)

/-- The number that a value is, if it fits into 64 bits. -/
def intOf? : Value → Option Int
  | .int n => if Yaml.isWord64 n then some n else none
  | .float x =>
    match Number.wholeNumber? x with
    | some n => if Yaml.isWord64 n then some n else none
    | none => none
  | _ => none

/-- A successor; no value counts as zero. -/
def successorOf? : Value → Option Int
  | .null => some 0
  | v => intOf? v

/-- The successors that a value lists. -/
def successorsOf? : Value → Option (List Int)
  | .null => some []
  | .sequence items => items.mapM successorOf?
  | _ => none

/-- The vertex that a key names; the word for no value names zero. -/
def vertexOf? (key : String) : Option Int :=
  if key = "null" then some 0
  else
    match Number.readDecimal (Text.bytes key) with
    | .ok v => some v
    | .error _ => none

/-- Adds the entries of a mapping to an adjacency. -/
def addEdges (a : Adjacency) : List (String × Value) → Option Adjacency
  | [] => some a
  | (k, v) :: rest =>
    match vertexOf? k, successorsOf? v with
    | some u, some vs => addEdges (a.insert u vs) rest
    | _, _ => none

/-- Sets a field. -/
def setField (d : Document) : Field → Value → Option Document
  | .vertices, .null => some { d with vertices := none }
  | .vertices, v => (intOf? v).map fun n => { d with vertices := some n }
  | .loops, .null => some d
  | .loops, .bool b => some { d with loops := b }
  | .loops, _ => none
  | .edges, .null => some { d with edges := .empty }
  | .edges, .mapping entries =>
    match keyedEntries entries with
    | none => none
    | some es => (addEdges d.edges es).map fun a => { d with edges := a }
  | .edges, _ => none

/-- Sets the fields of a document in turn. -/
def setFields (d : Document) : List (String × Value) → Option Document
  | [] => some d
  | (name, v) :: rest =>
    match Field.ofName? name with
    | none => none
    | some f =>
      match d.setField f v with
      | none => none
      | some d => setFields d rest

/-- The document that a value is. -/
def ofValue? : Value → Option Document
  | .null => some {}
  | .mapping entries =>
    match keyedEntries entries with
    | none => none
    | some es => setFields {} es
  | _ => none

/-- **Reads a document.** -/
def parse? (s : List UInt8) : Option Document := Yaml.parse s >>= ofValue?

end Document

/-! ## Loading -/

/-- Why a graph cannot be loaded. -/
inductive LoadError
  /-- What was read is no document. -/
  | badDocument
  /-- The document describes no graph. -/
  | badGraph (e : GraphError)

/-- What an error says. -/
def LoadError.message : LoadError → String
  | .badDocument => "digraph: bad graph document"
  | .badGraph e => e.message

/-- **Loads a graph from a document.** -/
def Graph.load (s : List UInt8) (ps : List Permission) : Except LoadError Graph :=
  match Document.parse? s with
  | none => .error .badDocument
  | some d =>
    match d.build ps with
    | .error e => .error (.badGraph e)
    | .ok g => .ok g

end TopologicalOrder
