import TopologicalOrder.Graph.Adjacency

/-!
# Building graphs

A graph is built from an adjacency or from a list of edges by adding one edge
after the other to a graph without edges; the first refusal ends the build. An
adjacency is read in ascending order of its keys, so that the outcome depends
on the map alone.

`inferOrder` is the least number of vertices that a list of edges needs. It is
capped just above `maxOrder`: beyond that every number is too large alike.
-/

namespace TopologicalOrder

namespace Graph

/-- Adds edges from `u` to each of `vs` in turn. -/
def addSuccessors (u : Int) : List Int → Graph → Except EdgeFault Graph
  | [], g => .ok g
  | v :: vs, g =>
    match g.addEdge u v with
    | (.error e, _) => .error e
    | (.ok (), g) => addSuccessors u vs g

/-- Adds the successor lists of each entry in turn. -/
def addEntries : List (Int × List Int) → Graph → Except GraphError Graph
  | [], g => .ok g
  | (u, vs) :: rest, g =>
    if g.isVertex u then
      match addSuccessors u vs g with
      | .error e => .error (.badSuccessor e)
      | .ok g => addEntries rest g
    else .error (.badKey u g.order)

/-- **The graph of `n` vertices with the lists of an adjacency.** -/
def ofAdjacency (n : Int) (a : Adjacency) (ps : List Permission) : Except GraphError Graph :=
  match ofOrder n ps with
  | .error e => .error e
  | .ok g => addEntries a.sorted g

/-- Adds each edge of a list that starts at position `index`. -/
def addEdges (index : Nat) : List Edge → Graph → Except GraphError Graph
  | [], g => .ok g
  | e :: es, g =>
    match g.addEdge e.source e.target with
    | (.error fault, _) => .error (.badEdge index fault)
    | (.ok (), g) => addEdges (index + 1) es g

/-- **The graph of `n` vertices with the edges of a list**, added in order. -/
def ofEdges (n : Int) (es : List Edge) (ps : List Permission) : Except GraphError Graph :=
  match ofOrder n ps with
  | .error e => .error e
  | .ok g => addEdges 0 es g

end Graph

/-- The least order of a graph that has `v` as a vertex, capped just above the
largest order there is. -/
def orderFor (v : Int) : Int :=
  if (maxOrder : Int) ≤ v then maxOrder + 1 else v + 1

/-- **The least order of a graph that has all these edges.** -/
def inferOrder (es : List Edge) : Int :=
  es.foldl (fun n e => max (max n (orderFor e.source)) (orderFor e.target)) 0

end TopologicalOrder
