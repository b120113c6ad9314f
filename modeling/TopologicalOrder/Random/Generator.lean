/-!
# Generators

A random graph asks two things of chance: an order in which to rank its vertices,
and for each edge a float to compare its probability with. A `Generator` answers
both, and its answers may depend on those it gave before. Nothing is asked of
them but that a ranking of the first numbers lists each of these once.
-/

namespace TopologicalOrder.Random

/-- **What random graphs are drawn with**, with states of type `γ`. -/
structure Generator (γ : Type) where
  /-- The numbers below `n` in some order, and the next state. -/
  permutation : Nat → γ → Array Nat × γ
  /-- A float, and the next state. -/
  unit : γ → Float × γ
  /-- Each of the numbers below `n` is listed once. -/
  perm_range : ∀ n s, (permutation n s).1.toList.Perm (List.range n)

end TopologicalOrder.Random
