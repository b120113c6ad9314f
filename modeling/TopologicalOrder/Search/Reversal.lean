/-!
# Reversal in place

`reverse` turns an array round by exchanging its ends and moving inwards, which
needs no second array. `indexOf?` is the position of the first element equal
to a value.
-/

namespace TopologicalOrder

variable {α : Type}

/-- Exchanges the elements at `i` and `j` and goes on inwards until the two
places meet. -/
def reverseBetween (xs : Array α) (i j : Nat) (hj : i < j → j < xs.size) : Array α :=
  if h : i < j then
    reverseBetween
      (xs.swap i j (Nat.lt_trans h (hj h)) (hj h)) (i + 1) (j - 1)
      (fun _ => by rw [Array.size_swap]; have := hj h; omega)
  else xs
termination_by j - i

/-- **The array turned round**, in place. -/
def reverse (xs : Array α) : Array α :=
  reverseBetween xs 0 (xs.size - 1) (fun _ => by omega)

/-- The index of the first element that equals `x`. -/
def indexOf? [BEq α] (xs : Array α) (x : α) : Option Nat := xs.findIdx? (· == x)

end TopologicalOrder
