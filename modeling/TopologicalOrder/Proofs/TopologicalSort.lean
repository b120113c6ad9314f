import Mathlib
import TopologicalOrder.Family.Basic
import TopologicalOrder.Proofs.Outcome
import TopologicalOrder.Proofs.Verification

/-!
# What a topological sort guarantees

Three statements about a sort, all read off the finish order of a search and the
causes of its failures.

An order that is returned places the source of every edge before its target,
except where the target leads back to the source; on a graph without cycles that
leaves no exception, and the order passes the check
(`topologicalSort_precedes`).

A sort that looks for cycles is a decision: it succeeds exactly on the closed
graphs without cycles, and a cycle that it reports is one
(`cycleDetection_exact`). A sort that does not, with no client to stop it, fails
only on a graph that is not closed, and otherwise lists every vertex once, cycles
or not (`unattended_sort_complete`).
-/

namespace TopologicalOrder

variable {σ : Type} {g : Successors} {n : Nat} {o : Options σ} {c c' : σ}

/-! ## From the finish order to the sort -/

/-- The sort turns the answer of the search round and leaves its failures alone. -/
theorem fst_topologicalSort (g : Option Successors) (k : Int) (o : Options σ) (c : σ) :
    (topologicalSort g k o c).1 = (finishOrder g k o c).1.map reverse := by
  unfold topologicalSort
  cases finishOrder g k o c with
  | mk answer c' => cases answer <;> rfl

theorem finishOrder_of_topologicalSort {order : Array Int}
    (h : (topologicalSort (some g) n o c).1 = .ok order) :
    ∃ xs, Listing ⟨g, o⟩ n xs.toList ∧ order = reverse xs := by
  rw [fst_topologicalSort] at h
  cases hf : finishOrder (some g) n o c with
  | mk answer c' =>
    rw [hf] at h
    cases answer with
    | error e => exact nomatch h
    | ok xs => exact ⟨xs, (listing_of_finishOrder hf).2, (Except.ok.inj h).symm⟩

theorem justified_of_topologicalSort {e : SortError}
    (h : (topologicalSort (some g) n o c).1 = .error e) : e.Justified ⟨g, o⟩ n := by
  rw [fst_topologicalSort] at h
  cases hf : finishOrder (some g) n o c with
  | mk answer c' =>
    rw [hf] at h
    cases answer with
    | error e' =>
      obtain rfl : e' = e := Except.error.inj h
      exact justified_of_finishOrder (Int.natCast_nonneg n) hf
    | ok xs => exact nomatch h

/-- Turned round, a finish order still lists every vertex once. -/
theorem Listing.perm_reverse {t : Task σ} {xs : Array Int} (h : Listing t n xs.toList) :
    (reverse xs).toList.Perm (vertices n) := by
  rw [toList_reverse]
  exact (List.reverse_perm _).trans h.perm

/-! ## Sources before targets -/

/-- **A returned order places the source of every edge before its target** unless a
path leads from the target back to the source. In particular, whatever order is
returned for a graph without cycles passes the check.

Nothing is asked of the strategy, the hooks, the watch or the detection of
cycles, and that every successor is a vertex need not be asked: an order is
returned only if it is so. -/
theorem topologicalSort_precedes {order : Array Int}
    (h : topologicalSort (some g) n o c = (.ok order, c')) :
    (∀ u v, IsVertex n u → v ∈ g u → ¬ g.Reaches v u → Precedes order u v) ∧
      (g.Acyclic n → verify (some g) n order = .ok ()) := by
  obtain ⟨xs, hlist, rfl⟩ := finishOrder_of_topologicalSort (congrArg Prod.fst h)
  have hperm : (reverse xs).toList.Perm (vertices n) := hlist.perm_reverse
  have hnodup : (reverse xs).toList.Nodup := hperm.nodup_iff.mpr (nodup_vertices n)
  have hprecedes : ∀ u v, IsVertex n u → v ∈ g u → ¬ g.Reaches v u →
      Precedes (reverse xs) u v := by
    intro u v hu hv hback
    rcases hlist.before u hu v hv with hsub | ⟨-, hreaches⟩
    · refine precedes_of_sublist hnodup ?_
      rw [toList_reverse]
      exact hsub.reverse
    · exact absurd hreaches hback
  refine ⟨hprecedes, fun hacyclic => (verify_eq_ok_of_perm hperm).mpr (fun u hu v hv => ?_)⟩
  -- without cycles no target leads back
  refine ⟨hlist.closed u hu v hv, hprecedes u v hu hv (fun hback => ?_)⟩
  exact hlist.closed.not_acyclic hu hv hback hacyclic

/-- A cycle through `1` and `2` that an edge leaves towards `3`, sorted by recursion
for a client that counts discoveries: the edge out of the cycle points forward.
And the demonstration graph, which has no cycle, sorted on a stack. -/
theorem topologicalSort_precedes_samples :
    (topologicalSort (some (Adjacency.ofList [(0, [1]), (1, [2]), (2, [1, 2, 3])]).successors)
        (4 : Nat) { strategy := .recursive, onVisit := some (fun _ k => (none, k + 1)) } 0 =
          (.ok #[0, 1, 2, 3], 4) ∧
      Precedes #[0, 1, 2, 3] (2 : Int) 3) ∧
    topologicalSort (some demo.successors) demoOrder {} () = (.ok #[0, 2, 1, 3, 4], ()) ∧
      verify (some demo.successors) demoOrder #[0, 2, 1, 3, 4] = .ok () := by
  have hloop : topologicalSort
      (some (Adjacency.ofList [(0, [1]), (1, [2]), (2, [1, 2, 3])]).successors)
      (4 : Nat) { strategy := .recursive, onVisit := some (fun _ k => (none, k + 1)) } 0 =
        (.ok #[0, 1, 2, 3], 4) := by cbv
  have hdemo : topologicalSort (some demo.successors) demoOrder {} () =
      (.ok #[0, 2, 1, 3, 4], ()) := by cbv
  refine ⟨⟨hloop, (topologicalSort_precedes hloop).1 2 3 (by decide) (by decide) ?_⟩,
    hdemo, (topologicalSort_precedes hdemo).2 ?_⟩
  · -- nothing leaves `3`
    intro hback
    rcases Relation.ReflTransGen.cases_head hback with heq | ⟨w, hedge, -⟩
    · exact absurd heq (by decide)
    · exact absurd hedge List.not_mem_nil
  · -- every edge of the demonstration graph goes up
    have hup : ∀ u ∈ vertices demoOrder, ∀ v ∈ demo.successors u, u < v := by decide
    refine Successors.acyclic_of_rank (fun v => (demoOrder - v).toNat) (fun u v hedge => ?_)
    obtain ⟨hu, hv, hmem⟩ := hedge
    have hlt := hup u (mem_vertices.mpr hu) v hmem
    have := hv.2
    omega

/-! ## Detecting cycles -/

/-- A finish order of a search for cycles ranks the vertices, so there is none. -/
theorem Listing.acyclic {t : Task σ} {order : List Int} (h : Listing t n order)
    (hdetect : t.options.detectCycles = true) : t.successors.Acyclic n := by
  have hnodup : order.Nodup := h.perm.nodup_iff.mpr (nodup_vertices n)
  refine Successors.acyclic_of_rank (fun v => order.idxOf v) (fun u v hedge => ?_)
  obtain ⟨hu, -, hv⟩ := hedge
  rcases h.before u hu v hv with hsub | ⟨hoff, -⟩
  · exact idxOf_lt_of_sublist hnodup hsub
  · rw [hdetect] at hoff
    exact nomatch hoff

/-- **Without hooks and with a watch that never stops, a search fails because of its
graph.** -/
theorem SortError.Justified.of_unattended {st : Strategy} {detect : Bool} {e : SortError}
    (h : e.Justified (⟨g, { strategy := st, detectCycles := detect }⟩ : Task σ) n) :
    (∃ u v, e = .outOfRange u v n ∧ IsVertex n v ∧ u ∈ g v ∧ ¬ IsVertex n u) ∨
      detect = true ∧ ∃ v u, e = .cycle v u ∧ IsVertex n v ∧ u ∈ g v ∧ g.Reaches u v := by
  exact h.of_unhindered (Options.unhindered_unattended st detect)

/-- **Looking for cycles decides whether there are any.** With no client to stop it,
a sort that looks for cycles succeeds exactly if every successor is a vertex and
no cycle exists; if only cycles are in the way, it reports one. Whatever the
client, an edge that is reported does close a cycle: its source can be reached
from its target. -/
theorem cycleDetection_exact (g : Successors) (n : Nat) (st : Strategy) (c : σ) :
    let answer := (topologicalSort (some g) n { strategy := st, detectCycles := true } c).1
    ((∃ order, answer = .ok order) ↔ g.Closed n ∧ g.Acyclic n) ∧
      (g.Closed n → ¬ g.Acyclic n → ∃ v u, answer = .error (.cycle v u)) ∧
      ∀ (o : Options σ) (v u : Int), (topologicalSort (some g) n o c).1 = .error (.cycle v u) →
        IsVertex n v ∧ u ∈ g v ∧ g.Reaches u v := by
  intro answer
  have hok : ∀ order, answer = .ok order → g.Closed n ∧ g.Acyclic n := by
    intro order h
    obtain ⟨xs, hlist, -⟩ := finishOrder_of_topologicalSort h
    exact ⟨hlist.closed, hlist.acyclic rfl⟩
  have herror : ∀ e, answer = .error e → g.Closed n →
      ∃ v u, e = .cycle v u ∧ ¬ g.Acyclic n := by
    intro e h hclosed
    rcases (justified_of_topologicalSort h).of_unattended with
      ⟨u, v, -, hv, hu, hout⟩ | ⟨-, v, u, rfl, hv, hu, hback⟩
    · exact absurd (hclosed v hv u hu) hout
    · exact ⟨v, u, rfl, hclosed.not_acyclic hv hu hback⟩
  refine ⟨⟨fun ⟨order, h⟩ => hok order h, fun ⟨hclosed, hacyclic⟩ => ?_⟩,
    fun hclosed hcyclic => ?_, fun o v u h => ?_⟩
  · cases h : answer with
    | ok order => exact ⟨order, rfl⟩
    | error e =>
      obtain ⟨-, -, -, hcyclic⟩ := herror e h hclosed
      exact absurd hacyclic hcyclic
  · cases h : answer with
    | ok order => exact absurd (hok order h).2 hcyclic
    | error e =>
      obtain ⟨v, u, rfl, -⟩ := herror e h hclosed
      exact ⟨v, u, rfl⟩
  · cases justified_of_topologicalSort h with
    | cycle hdetect hv hu hback => exact ⟨hv, hu, hback⟩

/-! ## Sorting without looking for cycles -/

/-- **A full answer about a graph**: an order of its vertices if every successor is a
vertex, and otherwise an edge that leaves them. -/
structure FullAnswer (g : Successors) (n : Nat) (answer : Except SortError (Array Int)) :
    Prop where
  /-- It succeeds on the closed graphs. -/
  ok_iff : (∃ order, answer = .ok order) ↔ g.Closed n
  /-- On success each vertex occurs once, and nothing else occurs. -/
  once : ∀ order, answer = .ok order →
    order.size = n ∧ ∀ v, order.count v = if IsVertex n v then 1 else 0
  /-- On failure the edge that is named leaves the vertices. -/
  error : ∀ e, answer = .error e →
    ∃ u v, e = .outOfRange u v n ∧ IsVertex n v ∧ u ∈ g v ∧ ¬ IsVertex n u

theorem count_of_perm_vertices {order : Array Int} (h : order.toList.Perm (vertices n)) :
    order.size = n ∧ ∀ v, order.count v = if IsVertex n v then 1 else 0 := by
  refine ⟨by rw [← Array.length_toList, h.length_eq, length_vertices], fun v => ?_⟩
  rw [← Array.count_toList, h.count_eq, (nodup_vertices n).count]
  simp only [mem_vertices]

/-- An answer is full if what it says is true in either case. -/
theorem FullAnswer.of_cases {answer : Except SortError (Array Int)}
    (hok : ∀ order, answer = .ok order → g.Closed n ∧ order.toList.Perm (vertices n))
    (herror : ∀ e, answer = .error e →
      ∃ u v, e = .outOfRange u v n ∧ IsVertex n v ∧ u ∈ g v ∧ ¬ IsVertex n u) :
    FullAnswer g n answer where
  ok_iff := by
    refine ⟨fun ⟨order, h⟩ => (hok order h).1, fun hclosed => ?_⟩
    cases h : answer with
    | ok order => exact ⟨order, rfl⟩
    | error e =>
      obtain ⟨u, v, -, hv, hu, hout⟩ := herror e h
      exact absurd (hclosed v hv u hu) hout
  once order h := count_of_perm_vertices (hok order h).2
  error := herror

/-- **With no client to stop it, a sort that does not look for cycles is complete.**
It succeeds exactly if every successor is a vertex, and then lists every vertex
once, whatever cycles, loops and repetitions the graph has; otherwise it names a
successor that is no vertex. The same holds of the finish order. -/
theorem unattended_sort_complete (g : Successors) (n : Nat) (st : Strategy) (c : σ) :
    FullAnswer g n (finishOrder (some g) n { strategy := st } c).1 ∧
      FullAnswer g n (topologicalSort (some g) n { strategy := st } c).1 := by
  have hcause : ∀ e : SortError, e.Justified (⟨g, { strategy := st }⟩ : Task σ) n →
      ∃ u v, e = .outOfRange u v n ∧ IsVertex n v ∧ u ∈ g v ∧ ¬ IsVertex n u := by
    intro e h
    rcases h.of_unattended with hout | ⟨hdetect, -⟩
    · exact hout
    · exact nomatch hdetect
  refine ⟨.of_cases (fun order h => ?_) (fun e h => ?_),
    .of_cases (fun order h => ?_) (fun e h => ?_)⟩
  · obtain ⟨-, hlist⟩ := listing_of_finishOrder (Prod.ext h rfl)
    exact ⟨hlist.closed, hlist.perm⟩
  · exact hcause e (justified_of_finishOrder (Int.natCast_nonneg n) (Prod.ext h rfl))
  · obtain ⟨xs, hlist, rfl⟩ := finishOrder_of_topologicalSort h
    exact ⟨hlist.closed, hlist.perm_reverse⟩
  · exact hcause e (justified_of_topologicalSort h)

end TopologicalOrder
