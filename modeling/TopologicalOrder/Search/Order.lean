import TopologicalOrder.Search.Recursive
import TopologicalOrder.Search.Stack
import TopologicalOrder.Search.Reversal

/-!
# Finish order and topological order

A search over `0 … n - 1` starts at every vertex that is still white, in
ascending order, and lists the vertices in the order in which they were
finished. `finishOrder` is that list. A vertex is finished after everything
that can be reached from it without meeting the current path again, so the
list turned round, `topologicalSort`, places the source of every edge before
its target wherever the graph has such an order.
-/

namespace TopologicalOrder

variable {σ : Type}

namespace Search

/-- Visits a white vertex by the strategy the client chose. -/
def enter (t : Task σ) (v : Int) (s : Search σ) : Except SortError Unit × Search σ :=
  match t.options.strategy with
  | .recursive => visit t v s
  | .stack => walk t v s

/-- **Starts at each of the given vertices** that is still white when its turn
comes. -/
def sweep (t : Task σ) : List Int → Search σ → Except SortError Unit × Search σ
  | [], s => (.ok (), s)
  | v :: vs, s =>
    match s.color v with
    | .white =>
      match enter t v s with
      | (.error e, r) => (.error e, r)
      | (.ok (), r) => sweep t vs r
    | _ => sweep t vs s

end Search

/-- The vertices `0 … n - 1` in ascending order. -/
def vertices (n : Nat) : List Int := (List.range n).map Int.ofNat

theorem nodup_vertices (n : Nat) : (vertices n).Nodup := by
  unfold vertices
  rw [List.nodup_iff_pairwise_ne, List.pairwise_map]
  exact (List.nodup_range (n := n)).imp fun h heq => h (Int.ofNat_inj.mp heq)

/-- **The vertices `0 … n - 1` of a graph in the order in which a depth-first
search finishes them**, with the state in which the client is left. -/
def finishOrder (g : Option Successors) (n : Int) (o : Options σ) (client : σ) :
    Except SortError (Array Int) × σ :=
  match g with
  | none => (.error .noGraph, client)
  | some g =>
    if n < 0 then (.error (.negativeCount n), client)
    else
      match Search.sweep { successors := g, options := o } (vertices n.toNat)
          (Search.start n.toNat client) with
      | (.error e, s) => (.error e, s.client)
      | (.ok (), s) => (.ok s.finished, s.client)

/-- **The finish order turned round**: every edge that lies on no cycle goes from
an earlier vertex to a later one. -/
def topologicalSort (g : Option Successors) (n : Int) (o : Options σ) (client : σ) :
    Except SortError (Array Int) × σ :=
  match finishOrder g n o client with
  | (.error e, c) => (.error e, c)
  | (.ok order, c) => (.ok (reverse order), c)

end TopologicalOrder
