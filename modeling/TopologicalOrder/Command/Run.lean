import TopologicalOrder.Command.Flags
import TopologicalOrder.Command.Folder
import TopologicalOrder.Command.Log
import TopologicalOrder.Family.Basic
import TopologicalOrder.Graph.Document
import TopologicalOrder.Graph.EdgeList

/-!
# Running the command

The command takes a graph from one of four sources and writes a topological order
of it. A document comes before a list of edges, and that before a bare number of
vertices; without any of them the demonstration graph is sorted. An empty text
counts as not given, although it still excludes other flags.

Running is a function of the arguments and of the texts that can be read. What it
leaves is an `Outcome`: what is written to the output, what is logged, and why the
command fails, if it does.
-/

namespace TopologicalOrder.Command

/-- Why the command fails. -/
inductive CommandError
  /-- The arguments are wrong. -/
  | usage (e : UsageError)
  /-- The number of vertices is negative. -/
  | negativeOrder (n : Int)
  /-- The file cannot be read. -/
  | unreadable (name : String) (e : ReadError)
  /-- The document cannot be loaded. -/
  | load (name : String) (e : LoadError)
  /-- The list of edges cannot be read. -/
  | edgeList (e : EdgeListError)
  /-- The edges make no graph. -/
  | graph (e : GraphError)
  /-- There is no graph of so many vertices. -/
  | family (e : FamilyError)
  /-- The graph cannot be sorted. -/
  | sort (e : SortError)

/-- The wording of a failure. -/
def CommandError.message : CommandError → String
  | .usage e => e.message
  | .negativeOrder n => s!"--vertices must be >= 0, got {n}"
  | .unreadable name e => e.message name
  | .load name e => s!"load {name}: {e.message}"
  | .edgeList e => e.message
  | .graph e => e.message
  | .family e => e.message
  | .sort e => e.message

/-- Where a graph comes from. -/
inductive Source
  /-- A document. -/
  | file
  /-- A list of edges. -/
  | edges
  /-- A number of vertices. -/
  | vertices
  /-- Nowhere: it is the demonstration graph. -/
  | demo
  deriving DecidableEq, Repr

/-- The name of a source. -/
def Source.name : Source → String
  | .file => "file"
  | .edges => "edges"
  | .vertices => "vertices"
  | .demo => "demo"

/-- A graph that is to be sorted. -/
structure Job where
  /-- The graph. -/
  successors : Successors
  /-- The number of its vertices. -/
  order : Int
  /-- Where it comes from. -/
  source : Source
  /-- What there is to report about how it was obtained. -/
  report : List Line := []

/-- The texts that can be read, by name; the standard input has the name `-`. -/
abbrev Inputs := String → Except ReadError (List UInt8)

/-- The texts of the standard input and of the files that can be reached from a
place. -/
def Inputs.of (input : List UInt8) (place : Place) : Inputs := fun name =>
  if name = "-" then .ok input else place.read name

/-! ## Finding the graph -/

/-- The job for a graph. -/
def Job.ofGraph (g : Graph) (source : Source) (report : List Line) : Job :=
  { successors := g.successors, order := g.order, source := source, report := report }

/-- The line that reports a document. -/
def loadedLine (name : String) (g : Graph) : Line :=
  { level := .debug
    message := "loaded graph document"
    fields := [("file", .text name), ("edges", .text (toString g.edgeCount))] }

/-- The graph of a document. -/
def fileJob (name : String) (inputs : Inputs) : Except CommandError Job :=
  match inputs name with
  | .error e => .error (.unreadable name e)
  | .ok s =>
    match Graph.load s [.loops] with
    | .error e => .error (.load name e)
    | .ok g => .ok (Job.ofGraph g .file [loadedLine name g])

/-- The graph of a list of edges. -/
def edgesJob (text : List UInt8) (vertices : Option Int) : Except CommandError Job :=
  match parseEdgeList text with
  | .error e => .error (.edgeList e)
  | .ok es =>
    match Graph.ofEdges (vertices.getD (inferOrder es)) es [.loops] with
    | .error e => .error (.graph e)
    | .ok g => .ok (Job.ofGraph g .edges [])

/-- The graph without edges. -/
def verticesJob (n : Int) : Except CommandError Job :=
  match Graph.isolated n with
  | .error e => .error (.family e)
  | .ok g => .ok (Job.ofGraph g .vertices [])

/-- The demonstration graph. -/
def demoJob : Job := { successors := demo.successors, order := demoOrder, source := .demo }

/-- The name of the document that a request takes its graph from. -/
def Request.document? (r : Request) : Option String := r.file.filter (· ≠ "")

/-- **The graph that a request asks for.** -/
def Request.job (r : Request) (inputs : Inputs) : Except CommandError Job :=
  match r.vertices.filter (· < 0) with
  | some n => .error (.negativeOrder n)
  | none =>
    match r.document? with
    | some name => fileJob name inputs
    | none =>
      match r.edges.filter (· ≠ []) with
      | some text => edgesJob text r.vertices
      | none =>
        match r.vertices with
        | some n => verticesJob n
        | none => .ok demoJob

/-! ## Sorting it -/

/-- **What running the command leaves.** -/
structure Outcome where
  /-- What is written to the output. -/
  output : String := ""
  /-- What is logged. -/
  log : List Line := []
  /-- Why the command fails, if it does. -/
  cause : Option CommandError := none

/-- The outcome of a failure, after what was logged before. -/
def Outcome.failure (log : List Line) (e : CommandError) : Outcome :=
  { log := log ++ [{ level := .error, message := "toposort failed",
                     fields := [("error", .text e.message)] }]
    cause := some e }

/-- The status with which the command ends. -/
def Outcome.status (o : Outcome) : Nat := if o.cause.isSome then 1 else 0

/-- An order as it is written. -/
def showOrder (order : Array Int) : String :=
  "Topological order:\n" ++ String.intercalate " " (order.toList.map toString) ++ "\n"

/-- The options that a request asks for. -/
def Request.options (r : Request) : Options Unit :=
  { strategy := if r.recursive then .recursive else .stack, detectCycles := r.strict }

/-- What there is to say about a sort. -/
def Request.fields (r : Request) (j : Job) : List (String × FieldValue) :=
  [("source", .text j.source.name), ("vertices", .text (toString j.order)),
    ("strategy", .text (if r.recursive then "recursive" else "iterative")),
    ("strict", .text (toString r.strict))]

/-- Sorts a graph as a request asks for. -/
def Request.sort (r : Request) (j : Job) : Outcome :=
  let report := fun ls => if r.debug then ls else []
  let before :=
    j.report ++ [{ level := .debug, message := "sorting graph", fields := r.fields j }]
  match (topologicalSort (some j.successors) j.order r.options ()).1 with
  | .error e => .failure (report before) (.sort e)
  | .ok order =>
    let after : Line :=
      { level := .debug, message := "sorted graph",
        fields := ("elapsed", .elapsed) :: r.fields j }
    { output := showOrder order, log := report (before ++ [after]) }

/-- How the command is used. -/
def helpText : String :=
  String.intercalate "\n"
    [ "Print a topological order of a directed graph over vertices 0..n-1.",
      "",
      "The graph comes from one of:",
      "  --edges \"0>1,0>2,1>3\"   compact edge list (n inferred unless -n is set)",
      "  --file graph.yaml       YAML or JSON document; \"-\" reads stdin",
      "  -n 4                    n isolated vertices",
      "  (nothing)               the demo DAG 0>1, 0>2, 1>3, 2>3, 3>4",
      "",
      "Cyclic input still prints a permutation unless --strict is set.",
      "",
      "Usage:",
      "  toposort [flags]",
      "",
      "Flags:",
      "      --debug          enable debug logging",
      "  -e, --edges string   edge list, e.g. \"0>1,1>2\"",
      "  -f, --file string    graph document (YAML or JSON); \"-\" reads stdin",
      "  -h, --help           help for toposort",
      "      --recursive      use the recursive traversal instead of the explicit stack",
      "      --strict         fail on cyclic input instead of printing a permutation",
      "  -n, --vertices int   vertex count (default: inferred from --edges)",
      "" ]

/-- Does what a request asks for. -/
def Request.run (r : Request) (inputs : Inputs) : Outcome :=
  if r.help then { output := helpText }
  else
    match r.check with
    | .error e => .failure [] (.usage e)
    | .ok () =>
      match r.job inputs with
      | .error e => .failure [] e
      | .ok j => r.sort j

/-- The name of the text that the command reads, if it reads any. -/
def inputFor? (args : List String) : Option String :=
  match Request.ofArguments args with
  | .error _ => none
  | .ok r =>
    match r.check with
    | .error _ => none
    | .ok () => if r.help then none else r.document?

/-- **Runs the command.** -/
def run (args : List String) (inputs : Inputs) : Outcome :=
  match Request.ofArguments args with
  | .error e => .failure [] (.usage e)
  | .ok r => r.run inputs

end TopologicalOrder.Command
