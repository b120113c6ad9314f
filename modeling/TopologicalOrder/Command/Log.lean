import TopologicalOrder.Text.Quoted

/-!
# Log lines

A log line consists of a level, a message and named fields, which are written in
the order of their names. A value is written as it is if it consists of letters,
digits and a few marks, and in quotes otherwise.

How long a step took is not known when its line is made, so such a field stays
open until the line is written.
-/

namespace TopologicalOrder.Command

/-- How grave a line is. -/
inductive Level
  /-- It reports a step. -/
  | debug
  /-- It reports a failure. -/
  | error
  deriving DecidableEq, Repr

/-- The name of a level. -/
def Level.name : Level → String
  | .debug => "debug"
  | .error => "error"

/-- The value of a field. -/
inductive FieldValue
  /-- A text. -/
  | text (s : String)
  /-- How long the step took. -/
  | elapsed
  deriving DecidableEq, Repr

/-- **A log line.** -/
structure Line where
  /-- How grave it is. -/
  level : Level
  /-- What it says. -/
  message : String
  /-- Its fields. -/
  fields : List (String × FieldValue)
  deriving DecidableEq, Repr

/-- Whether a character needs no quotes. -/
def isBare (c : Char) : Bool := c.isAlphanum || "-._/@^+".toList.contains c

/-- A value as it is written. -/
def showValue (s : String) : String := if s.toList.all isBare then s else Text.quoteString s

/-- A field as it is written. -/
def showField (name value : String) : String := s!"{name}={showValue value}"

/-- **A line as it is written**, given how long its step took. -/
def Line.render (elapsed : String) (l : Line) : String :=
  let value := fun
    | FieldValue.text s => s
    | FieldValue.elapsed => elapsed
  let fields := l.fields.mergeSort fun a b => !decide (b.1 < a.1)
  String.intercalate " "
    (showField "level" l.level.name :: showField "msg" l.message ::
      fields.map fun f => showField f.1 (value f.2)) ++ "\n"

end TopologicalOrder.Command
