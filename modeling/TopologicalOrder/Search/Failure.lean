import TopologicalOrder.Search.Options

/-!
# How a search fails

`SortError` lists the causes for which a search gives no order, each with what
a client needs to find it: the offending vertices, the interruption, or the
hook that failed. `SortError.message` is their wording.
-/

namespace TopologicalOrder

/-- Why a search gives no order. -/
inductive SortError
  /-- There is no graph to search. -/
  | noGraph
  /-- The number of vertices is negative. -/
  | negativeCount (n : Int)
  /-- `vertex` lists a successor outside `0 … n - 1`. -/
  | outOfRange (successor vertex : Int) (n : Nat)
  /-- The edge from `source` to `target` closes a cycle. -/
  | cycle (source target : Int)
  /-- The watch stopped the search. -/
  | interrupted (cause : Interrupt)
  /-- The client's hook failed on `vertex`. -/
  | hookFailed (phase : Phase) (vertex : Int) (reason : String)
  deriving DecidableEq, Repr

/-- The name under which a failing hook is reported. -/
def Phase.hookName : Phase → String
  | .visit => "OnVisit"
  | .exit => "OnExit"

/-- The wording of a failed search. -/
def SortError.message : SortError → String
  | .noGraph => "dfs: graph is nil"
  | .negativeCount n => s!"dfs: negative vertex count: n={n}"
  | .outOfRange u v n => s!"dfs: vertex out of range: successor {u} of vertex {v}, n={n}"
  | .cycle v u => s!"dfs: cycle detected: back edge {v}>{u}"
  | .interrupted cause => cause.message
  | .hookFailed phase v reason => s!"dfs: {phase.hookName} hook for {v}: {reason}"

end TopologicalOrder
