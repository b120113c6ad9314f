/-!
# Interning

An `Interner` numbers keys in the order in which it meets them. It holds the
keys by number and an index from keys to numbers. A key equal to one that has a
number gets that number, and any other key the next one; in particular a key
that differs from itself gets a new number each time.
-/

namespace TopologicalOrder

/-- **A numbering of keys.** -/
structure Interner (K : Type) where
  /-- The numbers of the keys, the latest key first. -/
  index : List (K × Nat) := []
  /-- The keys by number. -/
  keys : Array K := #[]

namespace Interner

variable {K : Type} [BEq K]

/-- The number of keys. -/
def size (t : Interner K) : Nat := t.keys.size

/-- The number of a key, if it has one. -/
def lookup (t : Interner K) (k : K) : Option Nat := t.index.lookup k

/-- **The number of a key**, which is a new one if the key has none yet. -/
def intern (t : Interner K) (k : K) : Nat × Interner K :=
  match t.lookup k with
  | some i => (i, t)
  | none => (t.size, { index := (k, t.size) :: t.index, keys := t.keys.push k })

/-- The key of a number, if it is one. -/
def key? (t : Interner K) (i : Int) : Option K :=
  if 0 ≤ i then t.keys[i.toNat]? else none

end Interner

end TopologicalOrder
