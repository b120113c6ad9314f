import TopologicalOrder.Family.Basic
import TopologicalOrder.Random.Generator

/-!
# Random acyclic graphs

A random graph is made from a ranking of its vertices: for each pair of ranks a
trial decides whether there is an edge from the vertex of lower rank to the
other. Edges only lead up the ranking, so there is no cycle, and the ranking is
a topological order.

Without a generator the ranking is the identity, and the probability should be
zero or one, so that no trial needs a draw. The checks do not see to this for a
probability that is no number: then the first trial fails for want of a draw. The
trials are made in ascending order of the lower rank, then of the higher one.
-/

namespace TopologicalOrder.Graph

variable {γ : Type}

/-- Decides one trial; only a probability strictly between zero and one, or one
that is no number, takes a draw, and nothing is decided if there is none. -/
def trial (gen : Option (Random.Generator γ)) (p : Float) (s : γ) : Option Bool × γ :=
  if p == 0 then (some false, s)
  else if p == 1 then (some true, s)
  else
    match gen with
    | none => (none, s)
    | some gen =>
      match gen.unit s with
      | (x, s) => (some (x < p), s)

/-- Tries an edge from `u` to each vertex of higher rank. -/
def addTrials (gen : Option (Random.Generator γ)) (p : Float) (u : Int) :
    List Int → Graph → γ → Except FamilyError Graph × γ
  | [], g, s => (.ok g, s)
  | v :: vs, g, s =>
    match trial gen p s with
    | (none, s) => (.error .noDraw, s)
    | (some false, s) => addTrials gen p u vs g s
    | (some true, s) =>
      match g.addEdge u v with
      | (.error fault, _) => (.error (.refused .random u v fault), s)
      | (.ok (), g) => addTrials gen p u vs g s

/-- Makes the trials of every pair of ranks. -/
def addForward (gen : Option (Random.Generator γ)) (p : Float) :
    List Int → Graph → γ → Except FamilyError Graph × γ
  | [], g, s => (.ok g, s)
  | u :: vs, g, s =>
    match addTrials gen p u vs g s with
    | (.error e, s) => (.error e, s)
    | (.ok g, s) => addForward gen p vs g s

/-- The vertices by rank: a random permutation, or the identity without a
generator. -/
def ranking (gen : Option (Random.Generator γ)) (n : Nat) (s : γ) : List Int × γ :=
  match gen with
  | none => (vertices n, s)
  | some gen =>
    match gen.permutation n s with
    | (ranks, s) => (ranks.toList.map Int.ofNat, s)

/-- **A random acyclic graph** in which each edge up the ranking is kept with
probability `p`, together with the state the generator is left in. -/
def random (n : Int) (p : Float) (gen : Option (Random.Generator γ)) (s : γ) :
    Except FamilyError Graph × γ :=
  if n < Family.random.minOrder then (.error (.tooFew .random n), s)
  else if p < 0 || 1 < p then (.error (.badProbability p), s)
  else if gen.isNone && 0 < p && p < 1 then (.error .noGenerator, s)
  else
    match Family.random.start n [] with
    | .error e => (.error e, s)
    | .ok g =>
      match ranking gen n.toNat s with
      | (ranks, s) => addForward gen p ranks g s

end TopologicalOrder.Graph
