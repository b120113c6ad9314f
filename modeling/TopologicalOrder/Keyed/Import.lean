import TopologicalOrder.Keyed.Graph

/-!
# Importing a graph

A graph kept elsewhere says whether it is directed and hands out its adjacency,
a finite map from each vertex to a finite set of targets, listed in no order
that one could rely on. `KeyedGraph.ofSource` lists vertices and targets in
their own order, so that the result depends on the two sets alone.

A key that differs from itself is never found in a map, so it has no edges of
its own, though it may be a vertex and a target any number of times.
-/

namespace TopologicalOrder

variable {K : Type}

/-- A graph to import. -/
structure SourceGraph (K : Type) where
  /-- Whether its edges have a direction. -/
  directed : Bool := true
  /-- Its vertices with their targets, or why they are not to be had. -/
  adjacency : Except String (List (K × List K))

/-- Why a graph is not imported. -/
inductive ImportError (K : Type)
  /-- Its edges have no direction. -/
  | undirected
  /-- It does not hand out its adjacency. -/
  | unavailable (reason : String)
  /-- One of its edges is refused. -/
  | edge (error : KeyedError K)

/-- The wording of a failed import. -/
def ImportError.message [Label K] : ImportError K → String
  | .undirected => "keyed: graph is undirected"
  | .unavailable reason => s!"keyed: AdjacencyMap: {reason}"
  | .edge e => e.message

namespace SourceGraph

variable [BEq K]

/-- Puts a key into a set of keys, in place of an equal one. -/
def putKey (k : K) : List K → List K
  | [] => [k]
  | j :: js => if j == k then k :: js else j :: putKey k js

/-- Sets the targets of a vertex, replacing the ones it had. -/
def putEntry (k : K) (targets : List K) : List (K × List K) → List (K × List K)
  | [] => [(k, targets)]
  | (j, ts) :: rest =>
    if j == k then (k, targets) :: rest else (j, ts) :: putEntry k targets rest

/-- The graph with the given targets; a later entry of a vertex replaces an
earlier one, and of equal targets one is kept. -/
def ofEntries (l : List (K × List K)) : SourceGraph K where
  adjacency := .ok (l.foldl
    (fun m e => putEntry e.1 (e.2.foldl (fun ts t => putKey t ts) []) m) [])

/-- Adds a target to those of a vertex. -/
def addTarget (k t : K) : List (K × List K) → List (K × List K)
  | [] => []
  | (j, ts) :: rest =>
    if j == k then (j, putKey t ts) :: rest else (j, ts) :: addTarget k t rest

/-- The graph with the given vertices and edges between them. -/
def ofEdges (directed : Bool) (vs : List K) (es : List (K × K)) : SourceGraph K where
  directed := directed
  adjacency := .ok (es.foldl
    (fun m e => addTarget e.1 e.2 m)
    (vs.foldl (fun m v => if (m.lookup v).isSome then m else putEntry v [] m) []))

end SourceGraph

namespace KeyedGraph

variable [BEq K]

/-- Adds edges from a key to each target in turn. -/
def addTargets (a : K) : List K → KeyedGraph K → Except (KeyedError K) (KeyedGraph K)
  | [], g => .ok g
  | b :: bs, g =>
    match g.addEdge a b with
    | (.error e, _) => .error e
    | (.ok (), g) => addTargets a bs g

/-- Adds the edges of each vertex in turn, the targets in their order. -/
def addSources [KeyOrder K] (m : List (K × List K)) :
    List K → KeyedGraph K → Except (KeyedError K) (KeyedGraph K)
  | [], g => .ok g
  | a :: as, g =>
    match addTargets a (((m.lookup a).getD []).mergeSort KeyOrder.le) g with
    | .error e => .error e
    | .ok g => addSources m as g

/-- **Imports a graph**: first its vertices in their order, then the edges of
each vertex. -/
def ofSource [KeyOrder K] (src : SourceGraph K) : Except (ImportError K) (KeyedGraph K) :=
  if src.directed then
    match src.adjacency with
    | .error reason => .error (.unavailable reason)
    | .ok m =>
      let sources := (m.map Prod.fst).mergeSort KeyOrder.le
      match addSources m sources (sources.foldl (fun g k => (g.addVertex k).2) {}) with
      | .error e => .error (.edge e)
      | .ok g => .ok g
  else .error .undirected

end KeyedGraph

end TopologicalOrder
