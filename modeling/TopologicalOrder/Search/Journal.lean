import TopologicalOrder.Search.Order

/-!
# Recording a search

A `Journal` is a client that writes down every call of its hooks, in order, and
keeps a flag that a hook may raise and a watch can read. `Script` describes one
hook of such a client: the name under which it records, the vertices on which it
raises the flag, and those on which it fails. The three happen in that order, so
the failing call is in the journal too.
-/

namespace TopologicalOrder

/-- One call of a hook. -/
structure Event where
  /-- The moment of the call. -/
  phase : Phase
  /-- The name of the hook that was called. -/
  tag : String
  /-- The vertex it was called on. -/
  vertex : Int
  deriving DecidableEq, Repr

/-- What a recording client keeps. -/
structure Journal where
  /-- The calls so far, the latest one last. -/
  events : Array Event := #[]
  /-- Whether a hook has asked the search to stop. -/
  canceled : Bool := false

/-- How a recording hook behaves. -/
structure Script where
  /-- The name under which it records. -/
  tag : String
  /-- On which vertices it asks the search to stop. -/
  cancels : Int → Bool := fun _ => false
  /-- On which vertices it fails, and why. -/
  fails : Int → Option String := fun _ => none

/-- **The hook a script describes**: it records the call, then may ask the search
to stop, then may fail. -/
def Script.hook (phase : Phase) (script : Script) : Hook Journal := fun v j =>
  (script.fails v,
    { events := j.events.push { phase := phase, tag := script.tag, vertex := v },
      canceled := j.canceled || script.cancels v })

/-- The watch that stops the search once a hook has asked for it. -/
def Journal.watch : Watch Journal := fun j => if j.canceled then some .canceled else none

end TopologicalOrder
