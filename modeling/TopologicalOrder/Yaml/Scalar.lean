import TopologicalOrder.Number.Scientific
import TopologicalOrder.Text.Base64
import TopologicalOrder.Yaml.Value

/-!
# The values of scalars

A tag says what kind of value a text stands for. Without one a quoted text is
itself, and a plain one is looked at: some words are truth values or no value,
and what starts like a number and can be read as one is a number.
-/

namespace TopologicalOrder.Yaml

open Number

/-- The words for truth values, for no value, and for the floats that have no
digits. -/
def word? (s : String) : Option Value :=
  if ["y", "Y", "yes", "Yes", "YES", "true", "True", "TRUE", "on", "On", "ON"].contains s then
    some (.bool true)
  else if ["n", "N", "no", "No", "NO", "false", "False", "FALSE", "off", "Off", "OFF"].contains s
    then some (.bool false)
  else if ["", "~", "null", "Null", "NULL"].contains s then some .null
  else if [".nan", ".NaN", ".NAN"].contains s then some (.float (0.0 / 0.0))
  else if [".inf", ".Inf", ".INF", "+.inf", "+.Inf", "+.INF"].contains s then
    some (.float (1.0 / 0.0))
  else if ["-.inf", "-.Inf", "-.INF"].contains s then some (.float (-1.0 / 0.0))
  else none

/-- Reads a number in any of the forms of an integer literal. -/
def integer? (s : List UInt8) : Option Value :=
  match readLiteral s with
  | .ok n => some (.int n)
  | .error _ =>
    match readUnsignedLiteral s with
    | .ok n => some (.int n)
    | .error _ => none

/-- Reads a number in base two whose sign follows the mark of the base. -/
def binary? (s : List UInt8) : Option Value :=
  if s.take 2 = asciiBytes "0b" then
    match readSigned 2 (s.drop 2) with
    | .ok n => some (.int n)
    | .error _ => none
  else none

/-- Reads a number that starts with a sign or a digit. Underscores do not count. -/
def number? (s : List UInt8) : Option Value :=
  let s := s.filter (· ≠ ascii '_')
  match integer? s with
  | some v => some v
  | none =>
    match readFloat s with
    | some x => some (.float x)
    | none => binary? s

/-- Reads a number that starts with a point. Underscores have to stand between
digits. -/
def fraction? (s : List UInt8) : Option Value :=
  if underscoresOk s then (readFloat (s.filter (· ≠ ascii '_'))).map .float else none

/-- **The value of a plain text.** -/
def ofPlain (text : List Char) : Value :=
  let s := String.ofList text
  match word? s with
  | some v => v
  | none =>
    let number :=
      match text with
      | [] => none
      | c :: _ =>
        if c = '.' then fraction? (Text.bytes s)
        else if c = '+' || c = '-' || c.isDigit then number? (Text.bytes s)
        else none
    number.getD (.text s)

/-- A tag of the standard. -/
def standardTag (name : String) : List UInt8 := Text.bytes ("tag:yaml.org,2002:" ++ name)

/-- Whether an integer may be taken for a float. -/
def isWord64 (n : Int) : Bool :=
  -((1 <<< 63 : Nat) : Int) ≤ n && n < ((1 <<< 63 : Nat) : Int)

/-- Takes a value for one of the kind that a tag demands. -/
def Value.demand (v : Value) (tag : List UInt8) : Option Value :=
  match v with
  | .null => if tag = standardTag "null" then some v else none
  | .bool _ => if tag = standardTag "bool" then some v else none
  | .int n =>
    if tag = standardTag "int" then some v
    else if tag = standardTag "float" && isWord64 n then some (.float (Float.ofInt n))
    else none
  | .float _ => if tag = standardTag "float" then some v else none
  | _ => none

/-- **The value of a scalar.** The tag is empty if there is none. A tag that is not
one of the standard leaves the text as it is. -/
def ofScalar (tag : List UInt8) (plain : Bool) (text : List Char) : Option Value :=
  if tag.isEmpty then some (if plain then ofPlain text else .text (String.ofList text))
  else if ["null", "bool", "int", "float", "timestamp"].any (standardTag · = tag) then
    (ofPlain text).demand tag
  else if tag = standardTag "binary" then
    (Text.decodeBase64 text).map fun bs => .text (Text.readable bs)
  else some (.text (String.ofList text))

end TopologicalOrder.Yaml
