import TopologicalOrder.Graph.Basic
import TopologicalOrder.Number.Decimal
import TopologicalOrder.Text.Quoted

/-!
# Edge lists as text

An edge is written `u>v`. A text lists edges separated by commas, semicolons,
blanks and line ends, as many as one likes; when it is read, `u->v` is accepted
as well. `edgeTokens` cuts the text into its maximal runs without separators,
and each of them has to be one edge between vertices that are not negative.
-/

namespace TopologicalOrder

open Number

/-- **An edge as text.** -/
def Edge.render (e : Edge) : List UInt8 := decimal e.source ++ ascii '>' :: decimal e.target

/-- What is wrong with a piece of text that should be an edge. -/
inductive EdgeCause
  /-- Nothing separates two vertices. -/
  | noArrow
  /-- One side is no number. -/
  | notNumber (text : List UInt8) (fault : ReadFault)
  /-- One side is negative. -/
  | negative (vertex : Int)
  deriving DecidableEq, Repr

/-- A piece of text that is no edge. -/
structure EdgeListError where
  /-- The piece. -/
  token : List UInt8
  /-- What is wrong with it. -/
  cause : EdgeCause
  deriving DecidableEq, Repr

/-- The wording of what is wrong with an edge. -/
def EdgeCause.message : EdgeCause → String
  | .noArrow => "missing '>'"
  | .notNumber text fault => s!"strconv.Atoi: parsing {Text.quote text}: {fault.message}"
  | .negative v => s!"negative vertex {v}"

/-- The wording of a text that is no edge list. -/
def EdgeListError.message (e : EdgeListError) : String :=
  s!"digraph: bad edge syntax: {Text.quote e.token}: {e.cause.message}"

/-- Whether a byte separates edges. -/
def isSeparator (b : UInt8) : Bool := (asciiBytes ",; \t\n\r").contains b

/-- The pieces of `s`, where `run` holds the bytes of the piece that has been
begun, the latest one first. -/
def edgeTokensFrom (run : List UInt8) : List UInt8 → List (List UInt8)
  | [] => if run.isEmpty then [] else [run.reverse]
  | b :: bs =>
    if isSeparator b then
      if run.isEmpty then edgeTokensFrom [] bs else run.reverse :: edgeTokensFrom [] bs
    else edgeTokensFrom (b :: run) bs

/-- **The maximal runs of a text that hold no separator**, in order. -/
def edgeTokens (s : List UInt8) : List (List UInt8) := edgeTokensFrom [] s

/-- What stands before and after the first occurrence of `mark`. -/
def cutAt (mark : List UInt8) : List UInt8 → Option (List UInt8 × List UInt8)
  | [] => none
  | b :: bs =>
    if mark.isPrefixOf (b :: bs) then some ([], (b :: bs).drop mark.length)
    else (cutAt mark bs).map fun (l, r) => (b :: l, r)

/-- The two sides of an arrow: of the long one if it occurs, else of the short
one. -/
def cutArrow (token : List UInt8) : Option (List UInt8 × List UInt8) :=
  match cutAt (asciiBytes "->") token with
  | some sides => some sides
  | none => cutAt (asciiBytes ">") token

/-- Reads a vertex, which is not negative. -/
def readVertex (s : List UInt8) : Except EdgeCause Int :=
  match readDecimal s with
  | .error fault => .error (.notNumber s fault)
  | .ok v => if v < 0 then .error (.negative v) else .ok v

/-- Reads one edge, its source first. -/
def readEdge (token : List UInt8) : Except EdgeCause Edge :=
  match cutArrow token with
  | none => .error .noArrow
  | some (l, r) =>
    match readVertex l with
    | .error e => .error e
    | .ok u =>
      match readVertex r with
      | .error e => .error e
      | .ok v => .ok { source := u, target := v }

/-- Reads one edge per piece of text, up to the first that is none. -/
def readEdges : List (List UInt8) → Except EdgeListError (List Edge)
  | [] => .ok []
  | token :: rest =>
    match readEdge token with
    | .error cause => .error { token := token, cause := cause }
    | .ok e =>
      match readEdges rest with
      | .error err => .error err
      | .ok es => .ok (e :: es)

/-- **Reads an edge list.** -/
def parseEdgeList (s : List UInt8) : Except EdgeListError (List Edge) := readEdges (edgeTokens s)

end TopologicalOrder
