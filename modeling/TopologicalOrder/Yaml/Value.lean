/-!
# The values of YAML documents

A document holds one value: a scalar of one of five kinds, a sequence of values,
or a mapping from values to values. The entries of a mapping stand in the order
in which they are written.
-/

namespace TopologicalOrder.Yaml

/-- **A value.** -/
inductive Value
  /-- No value. -/
  | null
  /-- A truth value. -/
  | bool (b : Bool)
  /-- A whole number. -/
  | int (n : Int)
  /-- A floating-point number. -/
  | float (x : Float)
  /-- A text. -/
  | text (s : String)
  /-- Values in order. -/
  | sequence (items : List Value)
  /-- Keys and their values. -/
  | mapping (entries : List (Value × Value))

namespace Value

/-- Whether a value may be a key. -/
def isScalar : Value → Bool
  | .sequence _ => false
  | .mapping _ => false
  | _ => true

/-- Whether two keys are the same: of one kind, and equal. -/
def isSame : Value → Value → Bool
  | .null, .null => true
  | .bool a, .bool b => a == b
  | .int a, .int b => a == b
  | .float a, .float b => a == b
  | .text a, .text b => a == b
  | _, _ => false

end Value

end TopologicalOrder.Yaml
