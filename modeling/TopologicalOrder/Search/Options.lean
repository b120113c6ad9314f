/-!
# How a search runs

A depth-first search is steered by four choices: the strategy that walks the
graph, whether a back edge is a failure, the watch that may interrupt it, and
the two hooks that are called when a vertex is discovered and when it is
finished. `Options` holds the four.

Hooks and the watch belong to the client, and so does the state they share: a
hook takes the client's state and hands it back, and the watch reads it. A hook
can therefore cause an interruption, which the search notices when it next
discovers a vertex. Nothing else of a run is visible to a hook, so a search is
a function of its graph, its options and the client's first state.

`Setting` lists the choices one by one; `Options.ofSettings` applies a list of
them in order, the later one winning.
-/

namespace TopologicalOrder

/-- How the search walks the graph. Both strategies meet the vertices in the
same order; they differ in where the path to the current vertex is kept. -/
inductive Strategy
  /-- The path is a list of frames that the search keeps itself. -/
  | stack
  /-- The path is the chain of pending calls. -/
  | recursive
  deriving DecidableEq, Repr

/-- Why a watch stops a search. -/
inductive Interrupt
  /-- The client gave up. -/
  | canceled
  /-- The time allowed is over. -/
  | deadlineExceeded
  deriving DecidableEq, Repr

/-- The wording of an interruption. -/
def Interrupt.message : Interrupt → String
  | .canceled => "context canceled"
  | .deadlineExceeded => "context deadline exceeded"

/-- The two moments at which a search calls its client. -/
inductive Phase
  /-- The vertex has just been discovered. -/
  | visit
  /-- Every successor of the vertex has been examined. -/
  | exit
  deriving DecidableEq, Repr

/-- What is called on a vertex: given the client's state, it answers with the
state it leaves and, if the search is to fail, with the reason. -/
abbrev Hook (σ : Type) : Type := Int → σ → Option String × σ

/-- What the search asks before it discovers a vertex: whether to stop. The answer
depends on the client's state alone, so only a hook can change it during a search;
a watch that changes its mind on its own, with time or from another thread, is left
out. -/
abbrev Watch (σ : Type) : Type := σ → Option Interrupt

/-- **The choices that steer a search** whose client keeps a state of type `σ`. -/
structure Options (σ : Type) where
  /-- How the graph is walked. -/
  strategy : Strategy := .stack
  /-- Whether an edge into the current path is a failure. -/
  detectCycles : Bool := false
  /-- Asked before each discovery. -/
  watch : Watch σ := fun _ => none
  /-- Called on each discovered vertex. -/
  onVisit : Option (Hook σ) := none
  /-- Called on each vertex whose successors are done. -/
  onExit : Option (Hook σ) := none

/-- One choice, as a client writes it down. These are the choices there are by name;
one that a client makes up itself, as any change to `Options`, is left out. -/
inductive Setting (σ : Type) where
  /-- Walk by recursion. -/
  | recursive
  /-- Fail on the first back edge. -/
  | detectCycles
  /-- Ask this watch; without one the choice made before stands. -/
  | watch (w : Option (Watch σ))
  /-- Call this hook on discovery, or none at all. -/
  | onVisit (h : Option (Hook σ))
  /-- Call this hook at the end of a vertex, or none at all. -/
  | onExit (h : Option (Hook σ))

namespace Options

variable {σ : Type}

/-- Applies one choice. -/
def apply (o : Options σ) : Setting σ → Options σ
  | .recursive => { o with strategy := .recursive }
  | .detectCycles => { o with detectCycles := true }
  | .watch none => o
  | .watch (some w) => { o with watch := w }
  | .onVisit h => { o with onVisit := h }
  | .onExit h => { o with onExit := h }

/-- The options that a list of choices leaves, applied from the first to the
last to the default ones. -/
def ofSettings (l : List (Setting σ)) : Options σ := l.foldl apply {}

end Options

end TopologicalOrder
