import TopologicalOrder.Search.Order

/-!
# Checking an order

`verify` decides whether a list is a topological order of the vertices
`0 … n - 1`. It first makes sure that the list is a permutation, noting where
each vertex stands, and then compares the places of the two ends of every edge,
the sources ascending and the successors of each in their own order. The first
fault on that way is the one it reports.
-/

namespace TopologicalOrder

/-- What is wrong with a proposed order. -/
inductive VerifyError
  /-- There is no graph to compare with. -/
  | noGraph
  /-- The number of vertices is negative. -/
  | negativeCount (n : Int)
  /-- The order has another length than the graph has vertices. -/
  | wrongLength (length : Nat) (n : Int)
  /-- The entry at `index` is no vertex. -/
  | notVertex (vertex : Int) (index n : Nat)
  /-- The entry at `index` stands earlier in the order too. -/
  | repeated (vertex : Int) (index : Nat)
  /-- `vertex` lists a successor outside `0 … n - 1`. -/
  | outOfRange (successor vertex : Int) (n : Nat)
  /-- The source of an edge does not stand before its target. -/
  | violated (source target : Int)
  deriving DecidableEq, Repr

/-- The wording of a rejected order. -/
def VerifyError.message : VerifyError → String
  | .noGraph => SortError.noGraph.message
  | .negativeCount n => (SortError.negativeCount n).message
  | .wrongLength l n => s!"dfs: not a permutation: length {l}, want {n}"
  | .notVertex v i n => s!"dfs: not a permutation: vertex {v} at index {i} outside [0, {n})"
  | .repeated v i => s!"dfs: not a permutation: vertex {v} repeated at index {i}"
  | .outOfRange u v n => (SortError.outOfRange u v n).message
  | .violated u v => s!"dfs: order violates edge: {u}>{v}"

/-- For each vertex its place in an order, as far as it is known. -/
abbrev Places : Type := Array (Option Nat)

namespace Places

/-- The place of a vertex. -/
def place (ps : Places) (v : Int) : Option Nat := ps.getD v.toNat none

/-- **Notes the places of the vertices in `vs`**, the first of which stands at
`index`. A vertex that has a place already is an error. -/
def note (ps : Places) (index : Nat) : List Int → Except VerifyError Places
  | [] => .ok ps
  | v :: vs =>
    if 0 ≤ v ∧ v < ps.size then
      match ps.place v with
      | some _ => .error (.repeated v index)
      | none => note (ps.setIfInBounds v.toNat (some index)) (index + 1) vs
    else .error (.notVertex v index ps.size)

/-- Whether `u` stands strictly before `v`. -/
def before (ps : Places) (u v : Int) : Bool :=
  match ps.place u, ps.place v with
  | some i, some j => i < j
  | _, _ => false

/-- Compares the place of `u` with those of its successors. -/
def checkSuccessors (ps : Places) (u : Int) : List Int → Except VerifyError Unit
  | [] => .ok ()
  | v :: vs =>
    if 0 ≤ v ∧ v < ps.size then
      if ps.before u v then checkSuccessors ps u vs else .error (.violated u v)
    else .error (.outOfRange v u ps.size)

/-- Checks the edges of each source in turn. -/
def checkSources (ps : Places) (g : Successors) : List Int → Except VerifyError Unit
  | [] => .ok ()
  | u :: us =>
    match checkSuccessors ps u (g u) with
    | .error e => .error e
    | .ok () => checkSources ps g us

end Places

/-- **Decides whether `order` is a topological order** of the vertices
`0 … n - 1` of `g`. -/
def verify (g : Option Successors) (n : Int) (order : Array Int) : Except VerifyError Unit :=
  match g with
  | none => .error .noGraph
  | some g =>
    if n < 0 then .error (.negativeCount n)
    else if (order.size : Int) ≠ n then .error (.wrongLength order.size n)
    else
      match Places.note (Array.replicate n.toNat none) 0 order.toList with
      | .error e => .error e
      | .ok places => places.checkSources g (vertices n.toNat)

end TopologicalOrder
