import TopologicalOrder.Number.Floating

/-!
# Keys

The vertices of a keyed graph are named by keys of any type that can be compared
for equality. Equality need not be reflexive: a float that is no number differs
from itself. `Label` says how a key is shown in messages, and `KeyOrder` by what
order keys are listed where an order is called for.
-/

namespace TopologicalOrder

/-- How a key is shown. -/
class Label (K : Type) where
  /-- The text of a key. -/
  label : K → String

/-- In what order keys are listed. -/
class KeyOrder (K : Type) where
  /-- Whether the first key is listed before the second, or they are equal. -/
  le : K → K → Bool

instance : Label String := ⟨id⟩

instance : Label Int := ⟨fun n => s!"{n}"⟩

instance : Label Float := ⟨Number.showFloat⟩

instance : Label (String × Int) := ⟨fun (name, num) => s!"\x7b{name} {num}\x7d"⟩

instance : KeyOrder String := ⟨fun a b => a ≤ b⟩

instance : KeyOrder Int := ⟨fun a b => a ≤ b⟩

/-- What is no number is listed before all numbers. -/
instance : KeyOrder Float := ⟨fun a b => a.isNaN || a ≤ b⟩

end TopologicalOrder
