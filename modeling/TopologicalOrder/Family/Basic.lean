import TopologicalOrder.Graph.Build
import TopologicalOrder.Number.Floating

/-!
# Families of graphs

For each size there is a graph without edges, a chain `0 → 1 → … → n - 1`, and a
cycle, which is the chain closed by an edge from its end to its start. `demo` is
a fixed small graph to try things on.
-/

namespace TopologicalOrder

/-- The families that a size picks a graph from. -/
inductive Family
  /-- No edges. -/
  | isolated
  /-- A path through all vertices. -/
  | chain
  /-- A closed path through all vertices. -/
  | cycle
  /-- Random edges up a ranking. -/
  | random
  deriving DecidableEq, Repr

/-- The name of a family in messages. -/
def Family.name : Family → String
  | .isolated => "Empty"
  | .chain => "Chain"
  | .cycle => "Cycle"
  | .random => "RandomDAG"

/-- The least size of a graph of the family. -/
def Family.minOrder : Family → Int
  | .isolated => 0
  | .chain => 1
  | .cycle => 1
  | .random => 0

/-- Why there is no such graph. -/
inductive FamilyError
  /-- The size is below the least of the family. -/
  | tooFew (family : Family) (n : Int)
  /-- The probability of an edge lies outside zero to one. -/
  | badProbability (p : Float)
  /-- A probability needs a generator, and there is none. -/
  | noGenerator
  /-- A trial needs a draw, and there is nothing to draw from. No check excludes
  that a probability which is no number comes without a generator. -/
  | noDraw
  /-- There is no graph of that size. -/
  | build (error : GraphError)
  /-- An edge of the family is refused. -/
  | refused (family : Family) (source target : Int) (fault : EdgeFault)

/-- The wording of a missing graph. -/
def FamilyError.message : FamilyError → String
  | .tooFew f n => s!"{f.name}: n={n} < min={f.minOrder}: gen: parameter too small"
  | .badProbability p =>
    s!"RandomDAG: p={Number.showFixed 6 p} not in [0.0,1.0]: gen: probability out of range"
  | .noGenerator => "RandomDAG: gen: rng is required"
  | .noDraw => "runtime error: invalid memory address or nil pointer dereference"
  | .build e => e.message
  | .refused f u v fault => s!"{f.name}: AddEdge({u}→{v}): {fault.message}"

/-- Starts a graph of a family: no edges yet, but a size that it admits. -/
def Family.start (f : Family) (n : Int) (ps : List Permission) : Except FamilyError Graph :=
  if n < f.minOrder then .error (.tooFew f n)
  else
    match Graph.ofOrder n ps with
    | .error e => .error (.build e)
    | .ok g => .ok g

/-- Adds the edges of a family one after the other. -/
def Family.addEdges (f : Family) : List Edge → Graph → Except FamilyError Graph
  | [], g => .ok g
  | e :: es, g =>
    match g.addEdge e.source e.target with
    | (.error fault, _) => .error (.refused f e.source e.target fault)
    | (.ok (), g) => addEdges f es g

namespace Graph

/-- **`n` vertices without edges.** -/
def isolated (n : Int) : Except FamilyError Graph := Family.isolated.start n []

/-- The edges `0 → 1`, …, `n - 2 → n - 1`. -/
def chainEdges (n : Nat) : List Edge :=
  (vertices (n - 1)).map fun i => { source := i, target := i + 1 }

/-- **The path `0 → 1 → … → n - 1`.** -/
def chain (n : Int) : Except FamilyError Graph :=
  match Family.chain.start n [] with
  | .error e => .error e
  | .ok g => Family.chain.addEdges (chainEdges n.toNat) g

/-- The edges `0 → 1`, …, `n - 1 → 0`. -/
def cycleEdges (n : Nat) : List Edge :=
  (vertices n).map fun i => { source := i, target := (i + 1) % n }

/-- **The closed path `0 → 1 → … → n - 1 → 0`.** A single vertex gets a loop. -/
def cycle (n : Int) : Except FamilyError Graph :=
  match Family.cycle.start n [.loops] with
  | .error e => .error e
  | .ok g => Family.cycle.addEdges (cycleEdges n.toNat) g

end Graph

/-- The size of the demonstration graph. -/
def demoOrder : Nat := 5

/-- **The demonstration graph**: two ways from `0` to `3`, and on to `4`. -/
def demo : Adjacency :=
  Adjacency.ofList [(0, [1, 2]), (1, [3]), (2, [3]), (3, [4]), (4, [])]

end TopologicalOrder
