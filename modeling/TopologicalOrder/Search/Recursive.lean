import TopologicalOrder.Search.State

/-!
# The recursive strategy

`Search.visit` discovers a vertex and explores its successors in order,
visiting the white ones on the way, before it finishes the vertex. The path to
the current vertex is the chain of pending calls.

The recursion ends because a descent leaves fewer white vertices and passing a
successor by leaves a shorter list. To go on with the list after a descent one
has to know that the descent made no vertex white, so `Search.explore` answers
together with that fact.
-/

namespace TopologicalOrder.Search

variable {σ : Type}

/-- A state a search may go on to: what came of the attempt, and a state with no
more white vertices than `s`. -/
abbrev Onward (s : Search σ) : Type :=
  { r : Except SortError Unit × Search σ // r.2.whites ≤ s.whites }

/-- **Explores the successors `us` of `v` that are left** and finishes `v`. -/
def explore (t : Task σ) (v : Int) (us : List Int) (s : Search σ) : Onward s :=
  match us with
  | [] => ⟨finish t v s, whites_finish_le t v s⟩
  | u :: us =>
    match hx : examine t v u s with
    | .error e => ⟨(.error e, s), Nat.le_refl _⟩
    | .ok false => explore t v us s
    | .ok true =>
      match hd : discover t u s with
      | (.error e, r) => ⟨(.error e, r), by simpa [hd] using whites_discover_le t u s⟩
      | (.ok ws, r) =>
        have hr : r.whites < s.whites :=
          whites_discover_lt t (white_of_examine hx).1 (white_of_examine hx).2 hd
        match explore t u ws r with
        | ⟨(.error e, q), hq⟩ => ⟨(.error e, q), Nat.le_trans hq (Nat.le_of_lt hr)⟩
        | ⟨(.ok (), q), hq⟩ =>
          have hqs : q.whites < s.whites := Nat.lt_of_le_of_lt hq hr
          match explore t v us q with
          | ⟨out, ho⟩ => ⟨out, Nat.le_trans ho (Nat.le_of_lt hqs)⟩
termination_by (s.whites, us.length)

/-- **Visits the white vertex `v`** and all white vertices that can be reached
from it through white vertices. -/
def visit (t : Task σ) (v : Int) (s : Search σ) : Except SortError Unit × Search σ :=
  match discover t v s with
  | (.error e, r) => (.error e, r)
  | (.ok us, r) => (explore t v us r).val

end TopologicalOrder.Search
