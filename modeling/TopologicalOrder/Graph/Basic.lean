import TopologicalOrder.Search.Order

/-!
# Validated graphs

A `Graph` over the vertices `0 … n - 1` holds one list of successors per vertex
and counts its edges. It is grown from no edges at all by `Graph.addEdge`, which
refuses an edge with an end outside the graph, a loop unless loops are allowed,
and a second copy of an edge; the successors of a vertex stand in the order in
which they were added. So every listed successor is a vertex, no list repeats
one, and the counter is the total length of the lists. An edge is asked for by
the holder of a graph, and the answer comes with the graph that is held then.

The number of vertices is at most `maxOrder`. Whoever makes a graph may grant it
permissions, of which there is one. A graph answers questions about any integer:
what is no vertex has no successors.
-/

namespace TopologicalOrder

/-- The largest number of vertices a graph may have. -/
def maxOrder : Nat := 1 <<< 24

/-- A directed edge. -/
structure Edge where
  /-- Where it starts. -/
  source : Int
  /-- Where it ends. -/
  target : Int
  deriving DecidableEq, Repr

/-- One of the two ends of an edge. -/
inductive Endpoint
  /-- Where it starts. -/
  | source
  /-- Where it ends. -/
  | target
  deriving DecidableEq, Repr

/-- Why a graph refuses an edge. -/
inductive EdgeFault
  /-- One end is no vertex. -/
  | outOfRange (side : Endpoint) (vertex : Int) (n : Nat)
  /-- The edge is a loop, and the graph has none. -/
  | loop (vertex : Int)
  /-- The graph has the edge already. -/
  | duplicate (source target : Int)
  deriving DecidableEq, Repr

/-- The name of an end in messages. -/
def Endpoint.label : Endpoint → String
  | .source => "from"
  | .target => "to"

/-- The wording of a refused edge. -/
def EdgeFault.message : EdgeFault → String
  | .outOfRange side v n => s!"digraph: vertex out of range: {side.label}={v}, n={n}"
  | .loop v => s!"digraph: self-loop not allowed: {v}>{v}"
  | .duplicate u v => s!"digraph: multi-edges not allowed: {u}>{v}"

/-- Why a graph is not built. -/
inductive GraphError
  /-- The number of vertices is negative. -/
  | negativeOrder (n : Int)
  /-- The number of vertices exceeds `maxOrder`. -/
  | orderTooLarge (n : Int)
  /-- A key of an adjacency is no vertex. -/
  | badKey (key : Int) (n : Nat)
  /-- A successor of an adjacency is refused. -/
  | badSuccessor (fault : EdgeFault)
  /-- The edge at `index` of a list is refused. -/
  | badEdge (index : Nat) (fault : EdgeFault)
  deriving DecidableEq, Repr

/-- The wording of a failed build. -/
def GraphError.message : GraphError → String
  | .negativeOrder n => s!"digraph: negative vertex count: n={n}"
  | .orderTooLarge n => s!"digraph: vertex count too large: n={n}, max={maxOrder}"
  | .badKey k n => s!"digraph: FromAdjacency: digraph: vertex out of range: key={k}, n={n}"
  | .badSuccessor fault => s!"digraph: FromAdjacency: {fault.message}"
  | .badEdge i fault => s!"digraph: FromEdges: edge #{i}: {fault.message}"

/-- **A validated graph** over the vertices `0 … order - 1`. -/
structure Graph where
  /-- The number of vertices. -/
  order : Nat
  /-- Whether an edge may lead from a vertex to itself. -/
  looped : Bool
  /-- The successors of each vertex, in the order in which they were added. -/
  lists : Array (List Int)
  /-- The number of edges. -/
  edgeCount : Nat
  deriving DecidableEq

/-- What may be permitted to a graph when it is made. -/
inductive Permission
  /-- An edge may lead from a vertex to itself. -/
  | loops
  deriving DecidableEq, Repr

namespace Graph

/-- Grants a permission to a graph. -/
def grant (g : Graph) : Permission → Graph
  | .loops => { g with looped := true }

/-- **The graph of `n` vertices without edges**, with the permissions of a list
granted in turn. -/
def ofOrder (n : Int) (ps : List Permission) : Except GraphError Graph :=
  if n < 0 then .error (.negativeOrder n)
  else if (maxOrder : Int) < n then .error (.orderTooLarge n)
  else .ok (ps.foldl grant
    { order := n.toNat, looped := false, lists := Array.replicate n.toNat [], edgeCount := 0 })

/-- Whether an integer is a vertex. -/
def isVertex (g : Graph) (v : Int) : Bool := 0 ≤ v && v < g.order

/-- **The successors of a vertex**; what is no vertex has none. -/
def successors (g : Graph) : Successors := fun v =>
  if g.isVertex v then g.lists.getD v.toNat [] else []

/-- Whether the graph has an edge from `u` to `v`. -/
def hasEdge (g : Graph) (u v : Int) : Bool := (g.successors u).contains v

/-- **Adds an edge** after the edges that start at the same vertex, or says why
it is refused: an end outside the graph, then a loop, then a second copy. The
graph that is left comes with the answer. -/
def addEdge (g : Graph) (u v : Int) : Except EdgeFault Unit × Graph :=
  if !g.isVertex u then (.error (.outOfRange .source u g.order), g)
  else if !g.isVertex v then (.error (.outOfRange .target v g.order), g)
  else if u = v ∧ g.looped = false then (.error (.loop u), g)
  else if g.hasEdge u v then (.error (.duplicate u v), g)
  else
    let us := g.successors u ++ [v]
    (.ok (),
      { g with lists := g.lists.setIfInBounds u.toNat us, edgeCount := g.edgeCount + 1 })

/-- **All edges**, the sources ascending and the targets of each in their order. -/
def edges (g : Graph) : List Edge :=
  (vertices g.order).flatMap fun u =>
    (g.successors u).map fun v => { source := u, target := v }

/-- A graph with the same edges, its lists copied slot by slot. -/
def clone (g : Graph) : Graph :=
  { g with lists := ((vertices g.order).map g.successors).toArray }

end Graph

end TopologicalOrder
