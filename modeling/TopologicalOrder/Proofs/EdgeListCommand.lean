import Mathlib
import TopologicalOrder.Command.Run
import TopologicalOrder.Proofs.Detection
import TopologicalOrder.Proofs.EdgeLists
import TopologicalOrder.Proofs.EdgeText

/-!
# The command on a list of edges

Given a list of edges, the command reads the text, builds the graph, sorts it and writes
the order. The first stage that fails is the cause of the failure, and nothing is written
then; `Course` tells the possible courses apart.

Each stage has been described on its own. Put together they say which texts are sorted
(`Course.status_eq_zero_iff`): the text lists edges, the number of vertices is allowed, the
ends of the edges are below it, no edge is repeated and, if cycles are failures, there are
none. The flags have no other influence on what is written, since neither the strategy nor
the search for cycles changes the order of a sort that succeeds
(`topologicalSort_unattended`).
-/

namespace TopologicalOrder

/-- A graph is not sorted because something that should be a vertex is none. -/
def SortError.IsOutOfRange : SortError → Prop
  | .outOfRange _ _ _ => True
  | _ => False

namespace Command

variable {s : List UInt8} {k : Option Int} {o : Options Unit} {strict recursive : Bool}
  {outcome outcome' : Outcome} {es : List Edge}

/-- The command fails because something that should be a vertex is none. -/
def CommandError.IsOutOfRange : CommandError → Prop
  | .load _ (.badGraph e) => e.IsOutOfRange
  | .graph e => e.IsOutOfRange
  | .family (.build e) => e.IsOutOfRange
  | .family (.refused _ _ _ fault) => fault.IsOutOfRange
  | .sort e => e.IsOutOfRange
  | _ => False

/-! ## The courses of the command -/

/-- The request to sort the edges that a text lists. -/
def Request.forEdges (s : List UInt8) (k : Option Int) (strict recursive : Bool) : Request :=
  { edges := some s, vertices := k, strict := strict, recursive := recursive }

/-- **What can come of a list of edges**, given as a text, with or without a number of
vertices. -/
inductive Course (s : List UInt8) (k : Option Int) (o : Options Unit) : Outcome → Prop
  /-- The number of vertices is negative. -/
  | negative {n : Int} (hk : k = some n) (hn : n < 0) :
      Course s k o (.failure [] (.negativeOrder n))
  /-- The text does not list edges. -/
  | unread {e : EdgeListError} (hread : parseEdgeList s = .error e) :
      Course s k o (.failure [] (.edgeList e))
  /-- The edges make no graph. -/
  | unbuilt {es : List Edge} {e : GraphError} (hread : parseEdgeList s = .ok es)
      (hbuild : Graph.ofEdges (k.getD (inferOrder es)) es [.loops] = .error e) :
      Course s k o (.failure [] (.graph e))
  /-- The graph cannot be sorted. -/
  | unsorted {es : List Edge} {g : Graph} {e : SortError}
      (hread : parseEdgeList s = .ok es)
      (hbuild : Graph.ofEdges (k.getD (inferOrder es)) es [.loops] = .ok g)
      (hsort : (topologicalSort (some g.successors) g.order o ()).1 = .error e) :
      Course s k o (.failure [] (.sort e))
  /-- The graph is sorted. -/
  | sorted {es : List Edge} {g : Graph} {order : Array Int}
      (hread : parseEdgeList s = .ok es)
      (hbuild : Graph.ofEdges (k.getD (inferOrder es)) es [.loops] = .ok g)
      (hsort : (topologicalSort (some g.successors) g.order o ()).1 = .ok order) :
      Course s k o { output := showOrder order }

/-- Nothing is reported while the graph of a list of edges is sorted. -/
theorem sort_forEdges (j : Job) :
    (Request.forEdges s k strict recursive).sort j =
      match (topologicalSort (some j.successors) j.order
        (Request.forEdges s k strict recursive).options ()).1 with
      | .error e => .failure [] (.sort e)
      | .ok order => { output := showOrder order } := rfl

/-- A negative number of vertices is noticed before the edges are read. -/
theorem job_forEdges (hs : s ≠ []) (inputs : Inputs) :
    (Request.forEdges s k strict recursive).job inputs =
      match k.filter (· < 0) with
      | some n => .error (.negativeOrder n)
      | none => edgesJob s k := by
  have htext : (some s).filter (· ≠ []) = some s := by simp [hs]
  unfold Request.job Request.document? Request.forEdges
  cases k.filter (· < 0) with
  | some n => rfl
  | none => simp only [Option.filter_none, htext]

/-- **The command takes one of these courses.** -/
theorem course_of_run (hs : s ≠ []) (inputs : Inputs) :
    Course s k (Request.forEdges s k strict recursive).options
      ((Request.forEdges s k strict recursive).run inputs) := by
  have hhelp : ¬ (Request.forEdges s k strict recursive).help = true := Bool.false_ne_true
  have hcheck : (Request.forEdges s k strict recursive).check = .ok () := rfl
  unfold Request.run
  rw [if_neg hhelp, hcheck, job_forEdges hs]
  cases hk : k.filter (· < 0) with
  | some n =>
    obtain ⟨hsome, hn⟩ := Option.filter_eq_some_iff.mp hk
    exact .negative hsome (of_decide_eq_true hn)
  | none =>
    unfold edgesJob
    cases hread : parseEdgeList s with
    | error e => exact .unread hread
    | ok es =>
      cases hbuild : Graph.ofEdges (k.getD (inferOrder es)) es [.loops] with
      | error e => simpa only [hbuild] using Course.unbuilt hread hbuild
      | ok g =>
        simp only [hbuild, sort_forEdges]
        cases hsort : (topologicalSort (some g.successors) g.order
            (Request.forEdges s k strict recursive).options ()).1 with
        | error e => simpa only [Job.ofGraph, hsort] using Course.unsorted hread hbuild hsort
        | ok order => simpa only [Job.ofGraph, hsort] using Course.sorted hread hbuild hsort

/-! ## Which texts are sorted -/

/-- **A text whose edges are sorted**: it lists edges, the number of vertices is allowed, the
ends of the edges are below it, no edge is repeated and, if a cycle is a failure, there is
none. The number of vertices is inferred from the edges if it is not given. -/
def Sortable (s : List UInt8) (k : Option Int) (strict : Bool) : Prop :=
  ∃ es, parseEdgeList s = .ok es ∧
    let n := k.getD (inferOrder es)
    (0 ≤ n ∧ n ≤ maxOrder) ∧ (∀ e ∈ es, e.source < n ∧ e.target < n) ∧ es.Nodup ∧
      (strict = true → ∀ v, ¬ Relation.TransGen (fun u w => Edge.mk u w ∈ es) v v)

/-- Edges that are read from a text make a graph with loops unless one is repeated or
leaves the range. -/
theorem exists_ofEdges_of_read {n : Int} (hread : parseEdgeList s = .ok es) :
    (∃ g, Graph.ofEdges n es [.loops] = .ok g) ↔
      (0 ≤ n ∧ n ≤ maxOrder) ∧ (∀ e ∈ es, e.source < n ∧ e.target < n) ∧ es.Nodup := by
  rw [Graph.exists_ofEdges_iff]
  refine and_congr_right fun hn => and_congr_left fun _ => forall₂_congr fun e he => ?_
  obtain ⟨hsource, htarget⟩ := nonneg_of_parseEdgeList hread e he
  have hcast : ((n.toNat : Nat) : Int) = n := Int.toNat_of_nonneg hn.1
  unfold Edge.Admissible IsVertex
  rw [hcast]
  exact ⟨fun h => ⟨h.1.2, h.2.1.2⟩, fun h => ⟨⟨hsource, h.1⟩, ⟨htarget, h.2⟩, Or.inr rfl⟩⟩

/-- **A text is sortable if its edges make a graph**, which is acyclic if it has to be. -/
theorem sortable_iff (hread : parseEdgeList s = .ok es) :
    Sortable s k strict ↔
      ∃ g, Graph.ofEdges (k.getD (inferOrder es)) es [.loops] = .ok g ∧
        (strict = true → g.successors.Acyclic g.order) := by
  constructor
  · rintro ⟨es', hread', hn, hends, hnodup, hacyclic⟩
    obtain rfl : es = es' := Except.ok.inj (hread.symm.trans hread')
    obtain ⟨g, hbuild⟩ := (exists_ofEdges_of_read hread).mpr ⟨hn, hends, hnodup⟩
    exact ⟨g, hbuild, fun hstrict => (Graph.acyclic_of_ofEdges_iff hbuild).mpr (hacyclic hstrict)⟩
  · rintro ⟨g, hbuild, hacyclic⟩
    obtain ⟨hn, hends, hnodup⟩ := (exists_ofEdges_of_read hread).mp ⟨g, hbuild⟩
    exact ⟨es, hread, hn, hends, hnodup, fun hstrict =>
      (Graph.acyclic_of_ofEdges_iff hbuild).mp (hacyclic hstrict)⟩

/-! ## What comes of a course -/

variable {st : Strategy}

/-- **The command succeeds on the texts that are sortable.** -/
theorem Course.status_eq_zero_iff
    (h : Course s k { strategy := st, detectCycles := strict } outcome) :
    outcome.status = 0 ↔ Sortable s k strict := by
  cases h with
  | negative hk hn =>
    refine iff_of_false Nat.one_ne_zero ?_
    rintro ⟨es, -, ⟨h0, -⟩, -⟩
    subst hk
    exact absurd h0 (not_le.mpr hn)
  | unread hread =>
    refine iff_of_false Nat.one_ne_zero ?_
    rintro ⟨es, hes, -⟩
    exact nomatch hread.symm.trans hes
  | unbuilt hread hbuild =>
    refine iff_of_false Nat.one_ne_zero fun hsortable => ?_
    obtain ⟨g, hg, -⟩ := (sortable_iff hread).mp hsortable
    exact nomatch hbuild.symm.trans hg
  | unsorted hread hbuild hsort =>
    refine iff_of_false Nat.one_ne_zero fun hsortable => ?_
    obtain ⟨g, hg, hacyclic⟩ := (sortable_iff hread).mp hsortable
    obtain rfl := Except.ok.inj (hbuild.symm.trans hg)
    obtain ⟨order, horder⟩ :=
      (exists_order_iff (Graph.wellFormed_of_ofEdges hbuild).closed).mpr hacyclic
    exact nomatch hsort.symm.trans horder
  | sorted hread hbuild hsort =>
    refine iff_of_true rfl ((sortable_iff hread).mpr ⟨_, hbuild, ?_⟩)
    exact (exists_order_iff (Graph.wellFormed_of_ofEdges hbuild).closed).mp ⟨_, hsort⟩

/-- **What is written in the end** is the order of the graph, whatever the flags. -/
theorem Course.output_eq (h : Course s k { strategy := st, detectCycles := strict } outcome)
    (hstatus : outcome.status = 0) :
    ∃ es g order, parseEdgeList s = .ok es ∧
      Graph.ofEdges (k.getD (inferOrder es)) es [.loops] = .ok g ∧
      (topologicalSort (some g.successors) (k.getD (inferOrder es)) {} ()).1 = .ok order ∧
      order.toList.Perm (vertices (k.getD (inferOrder es)).toNat) ∧
      outcome.output = showOrder order := by
  cases h with
  | sorted hread hbuild hsort =>
    have horder := Graph.order_of_ofEdges hbuild
    have hplain := topologicalSort_unattended hsort
    obtain ⟨xs, hlist, rfl⟩ := finishOrder_of_topologicalSort hplain
    refine ⟨_, _, _, hread, hbuild, ?_, ?_, rfl⟩
    · rw [← horder]
      exact hplain
    · rw [← horder]
      exact hlist.perm_reverse
  | _ => exact nomatch hstatus

theorem Course.output_unique
    (h : Course s k { strategy := st, detectCycles := strict } outcome)
    {st' : Strategy} {strict' : Bool}
    (h' : Course s k { strategy := st', detectCycles := strict' } outcome')
    (hstatus : outcome.status = 0) (hstatus' : outcome'.status = 0) :
    outcome'.output = outcome.output := by
  obtain ⟨es, g, order, hread, hbuild, hsort, -, hout⟩ := h.output_eq hstatus
  obtain ⟨es', g', order', hread', hbuild', hsort', -, hout'⟩ := h'.output_eq hstatus'
  obtain rfl := Except.ok.inj (hread.symm.trans hread')
  obtain rfl := Except.ok.inj (hbuild.symm.trans hbuild')
  obtain rfl := Except.ok.inj (hsort.symm.trans hsort')
  rw [hout, hout']

/-- A failure writes nothing. -/
theorem Course.output_of_status_ne (h : Course s k o outcome) (hstatus : outcome.status ≠ 0) :
    outcome.status = 1 ∧ outcome.output = "" := by
  cases h with
  | sorted => exact absurd rfl hstatus
  | _ => exact ⟨rfl, rfl⟩

/-- **Where the number of vertices is inferred, no end is out of range.** -/
theorem Course.not_isOutOfRange
    (h : Course s none { strategy := st, detectCycles := strict } outcome) {e : CommandError}
    (he : outcome.cause = some e) : ¬ e.IsOutOfRange := by
  cases h with
  | negative hk => exact nomatch hk
  | unread =>
    obtain rfl := Option.some.inj he
    exact id
  | unbuilt hread hbuild =>
    obtain rfl := Option.some.inj he
    exact Graph.not_isOutOfRange_of_inferOrder hbuild (nonneg_of_parseEdgeList hread)
  | unsorted hread hbuild hsort =>
    obtain rfl := Option.some.inj he
    rcases (justified_of_topologicalSort hsort).of_unattended with
      ⟨u, v, -, hv, hu, hout⟩ | ⟨-, v, u, rfl, -⟩
    · exact absurd ((Graph.wellFormed_of_ofEdges hbuild).closed v hv u hu) hout
    · exact id
  | sorted => exact nomatch he

/-- **The command on a list of edges.** Let a request ask for the edges in a text that is not
empty, with or without a number of vertices, with cycles allowed or not and by either strategy.
The request is what the command does on all arguments that are read as it. It succeeds exactly
if the text is sortable. It then writes the order in which the graph of the edges is sorted,
which lists every vertex once, and writes the same whatever the other flags are; otherwise its
status is one and it writes nothing. Unless the number of vertices was given, it never fails
because an end of an edge is out of range. -/
theorem run_edges_exact (hs : s ≠ []) (k : Option Int) (strict recursive : Bool)
    (inputs : Inputs) :
    let outcome := (Request.forEdges s k strict recursive).run inputs
    (∀ args, Request.ofArguments args = .ok (.forEdges s k strict recursive) →
        run args inputs = outcome) ∧
      (outcome.status = 0 ↔ Sortable s k strict) ∧
      (outcome.status = 0 → ∃ es g order, parseEdgeList s = .ok es ∧
        Graph.ofEdges (k.getD (inferOrder es)) es [.loops] = .ok g ∧
        (topologicalSort (some g.successors) (k.getD (inferOrder es)) {} ()).1 = .ok order ∧
        order.toList.Perm (vertices (k.getD (inferOrder es)).toNat) ∧
        outcome.output = "Topological order:\n" ++
          String.intercalate " " (order.toList.map toString) ++ "\n") ∧
      (∀ strict' recursive' inputs',
        let outcome' := (Request.forEdges s k strict' recursive').run inputs'
        outcome.status = 0 → outcome'.status = 0 → outcome'.output = outcome.output) ∧
      (outcome.status ≠ 0 → outcome.status = 1 ∧ outcome.output = "") ∧
      (k = none → ∀ e, outcome.cause = some e → ¬ e.IsOutOfRange) := by
  intro outcome
  have hcourse : Course s k _ outcome := course_of_run hs inputs
  refine ⟨fun args hargs => ?_, hcourse.status_eq_zero_iff, hcourse.output_eq, ?_,
    hcourse.output_of_status_ne, ?_⟩
  · unfold run
    rw [hargs]
  · intro strict' recursive' inputs' outcome' hstatus hstatus'
    exact hcourse.output_unique (course_of_run hs inputs') hstatus hstatus'
  · rintro rfl e he
    exact hcourse.not_isOutOfRange he

/-- A cycle and a loop are sorted, unless a cycle is a failure. -/
theorem run_edges_exact_sample :
    let s := Text.bytes "0>1, 1->0;1>1"
    let args := ["--edges", "0>1, 1->0;1>1", "--recursive"]
    let strictArgs := ["-e", "0>1, 1->0;1>1", "-n", "3", "--strict"]
    (s ≠ [] ∧ Request.ofArguments args = .ok (.forEdges s none false true) ∧
        Request.ofArguments strictArgs = .ok (.forEdges s (some 3) true false)) ∧
      ∀ inputs : Inputs,
        ((run args inputs).status = 0 ∧ (run args inputs).output = "Topological order:\n0 1\n") ∧
          (run strictArgs inputs).status = 1 ∧ (run strictArgs inputs).output = "" := by
  intro s args strictArgs
  have hs : s ≠ [] := by decide +kernel
  have hargs : Request.ofArguments args = .ok (.forEdges s none false true) := by decide +kernel
  have hstrict : Request.ofArguments strictArgs = .ok (.forEdges s (some 3) true false) := by
    decide +kernel
  have hread : parseEdgeList s = .ok [⟨0, 1⟩, ⟨1, 0⟩, ⟨1, 1⟩] := by decide +kernel
  refine ⟨⟨hs, hargs, hstrict⟩, fun inputs => ⟨?_, ?_⟩⟩
  · obtain ⟨hrun, hiff, hout, -⟩ := run_edges_exact hs none false true inputs
    have hstatus := hiff.mpr ⟨_, hread, by decide, by decide, by decide, fun hoff => nomatch hoff⟩
    obtain ⟨es, g, order, hes, hg, horder, -, hwritten⟩ := hout hstatus
    obtain rfl := Except.ok.inj (hread.symm.trans hes)
    obtain rfl : g = { order := 2, looped := true, lists := #[[1], [0, 1]], edgeCount := 3 } :=
      Except.ok.inj (hg.symm.trans (by cbv))
    obtain rfl : order = #[0, 1] := Except.ok.inj (horder.symm.trans (by cbv))
    rw [hrun args hargs]
    exact ⟨hstatus, hwritten.trans (by decide)⟩
  · obtain ⟨hrun, hiff, -, -, hfail, -⟩ := run_edges_exact hs (some 3) true false inputs
    rw [hrun strictArgs hstrict]
    refine hfail (mt hiff.mp ?_)
    rintro ⟨es, hes, -, -, -, hacyclic⟩
    obtain rfl := Except.ok.inj (hread.symm.trans hes)
    exact hacyclic rfl 1 (.single (by decide))

end Command

end TopologicalOrder
