import TopologicalOrder.Graph.Basic
import TopologicalOrder.Keyed.Interner
import TopologicalOrder.Keyed.Key

/-!
# Graphs over keys

A `KeyedGraph` has keys for vertices. It numbers them as it meets them and keeps
the successors of each number, so that it can be searched like any other graph;
the order of a search is handed out as keys. Loops are allowed, a second copy of
an edge is refused.
-/

namespace TopologicalOrder

/-- Why an operation on a keyed graph fails. -/
inductive KeyedError (K : Type)
  /-- The graph has the edge already. -/
  | duplicateEdge (source target : K)
  /-- The key is no vertex. -/
  | unknownKey (key : K)
  /-- The search gives no order. -/
  | sort (error : SortError)

/-- The wording of a failed operation. -/
def KeyedError.message {K : Type} [Label K] : KeyedError K → String
  | .duplicateEdge a b =>
    s!"keyed: {Label.label a}>{Label.label b}: digraph: multi-edges not allowed"
  | .unknownKey k => s!"keyed: unknown key: {Label.label k}"
  | .sort e => s!"keyed: {e.message}"

/-- **A graph whose vertices are keys.** -/
structure KeyedGraph (K : Type) where
  /-- The numbers of the keys. -/
  ids : Interner K := {}
  /-- The successors of each number, in the order in which they were added. -/
  lists : Array (List Int) := #[]

namespace KeyedGraph

variable {K : Type} [BEq K]

/-- The number of vertices. -/
def order (g : KeyedGraph K) : Nat := g.ids.size

/-- The keys in the order in which they were first met. -/
def keys (g : KeyedGraph K) : List K := g.ids.keys.toList

/-- **Makes a key a vertex**, unless it is one, and gives its number. -/
def addVertex (g : KeyedGraph K) (k : K) : Nat × KeyedGraph K :=
  match g.ids.intern k with
  | (id, ids) =>
    (id, { ids := ids, lists := if id = g.lists.size then g.lists.push [] else g.lists })

/-- The successors of a number; what is no number has none. -/
def successors (g : KeyedGraph K) : Successors := fun v =>
  if 0 ≤ v then g.lists.getD v.toNat [] else []

/-- **Adds an edge** between two keys, making them vertices first. -/
def addEdge (g : KeyedGraph K) (a b : K) : Except (KeyedError K) Unit × KeyedGraph K :=
  match g.addVertex a with
  | (u, g) =>
    match g.addVertex b with
    | (v, g) =>
      let us := g.successors u
      if us.contains (v : Int) then (.error (.duplicateEdge a b), g)
      else (.ok (), { g with lists := g.lists.setIfInBounds u (us ++ [(v : Int)]) })

variable [Inhabited K]

/-- The keys of a list of numbers; what is no number of a key stands for the default
key. -/
def keysOf (g : KeyedGraph K) (ids : List Int) : List K :=
  ids.map fun i => (g.ids.key? i).getD default

/-- The keys of the successors of a key. -/
def successorKeys (g : KeyedGraph K) (k : K) : Except (KeyedError K) (List K) :=
  match g.ids.lookup k with
  | none => .error (.unknownKey k)
  | some id => .ok (g.keysOf (g.successors id))

/-- **The keys in topological order.** The hooks of the search see numbers. -/
def sort {σ : Type} (g : KeyedGraph K) (o : Options σ) (client : σ) :
    Except (KeyedError K) (List K) × σ :=
  match topologicalSort (some g.successors) g.order o client with
  | (.error e, c) => (.error (.sort e), c)
  | (.ok order, c) => (.ok (g.keysOf order.toList), c)

end KeyedGraph

end TopologicalOrder
