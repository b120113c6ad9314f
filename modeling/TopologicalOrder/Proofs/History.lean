import Mathlib
import TopologicalOrder.Proofs.Representation

/-!
# The history of a graph

The holder of a graph calls for edges one after the other, and each call is answered:
it adds the edge, or it is refused and leaves the graph as it was. So a graph is as
much as the sequence of calls on it. The successors of a vertex are the targets that
were called for in admissible edges, each at the place of its first occurrence
(`Graph.Built.successors_replay`), and refused calls leave no trace.

The counter of the edges takes no part in any of this: that it agrees with the lists
after every history (`Graph.WellFormed.length_edges`), and that it stays in range
(`Graph.WellFormed.edgeCount_le`), is a matter of the invariant alone.
-/

namespace TopologicalOrder

/-! ## Leaving repetitions out -/

theorem eraseDups_concat {α : Type} [BEq α] [LawfulBEq α] (l : List α) (a : α) :
    (l ++ [a]).eraseDups = if a ∈ l.eraseDups then l.eraseDups else l.eraseDups ++ [a] := by
  rw [List.eraseDups_append]
  by_cases ha : a ∈ l
  · simp [ha, List.removeAll]
  · simp [ha, List.removeAll, List.eraseDups_cons]

theorem eraseDups_of_nodup {α : Type} [BEq α] [LawfulBEq α] {l : List α} (h : l.Nodup) :
    l.eraseDups = l := by
  induction l using List.reverseRecOn with
  | nil => rfl
  | append_singleton l a ih =>
    obtain ⟨hnodup, -, hdisjoint⟩ := List.nodup_append.mp h
    have ha : a ∉ l := fun hmem => hdisjoint a hmem a (List.mem_singleton_self a) rfl
    rw [eraseDups_concat, ih hnodup, if_neg ha]

namespace Graph

variable {g : Graph} {e : Edge}

/-! ## Counting edges -/

theorem mem_edges : e ∈ g.edges ↔ e.target ∈ g.successors e.source := by
  unfold edges
  simp only [List.mem_flatMap, List.mem_map, mem_vertices]
  constructor
  · rintro ⟨u, -, v, hv, rfl⟩
    exact hv
  · intro hmem
    refine ⟨e.source, Classical.byContradiction fun hnot => ?_, e.target, hmem, rfl⟩
    rw [successors_of_not_isVertex hnot] at hmem
    exact List.not_mem_nil hmem

/-- **The counter counts the edges.** -/
theorem WellFormed.length_edges (h : g.WellFormed) : g.edges.length = g.edgeCount := by
  unfold edges
  rw [h.edgeCount_eq, h.toList_lists, List.length_flatMap, List.map_map]
  simp only [List.length_map, Function.comp_def]

/-- **There are at most as many edges as pairs of vertices.** -/
theorem WellFormed.edgeCount_le (h : g.WellFormed) : g.edgeCount ≤ g.order * g.order := by
  have hlength : ∀ k ∈ g.lists.toList.map List.length, k ≤ g.order := by
    intro k hk
    obtain ⟨us, hus, rfl⟩ := List.mem_map.mp hk
    obtain ⟨i, hi⟩ := List.mem_iff_getElem?.mp hus
    rw [Array.getElem?_toList] at hi
    obtain ⟨hvertices, hnodup, -⟩ := h.list_ok i us hi
    have hsub : us ⊆ vertices g.order := fun u hu => mem_vertices.mpr (hvertices u hu)
    exact (length_vertices g.order) ▸ (List.subperm_of_subset hnodup hsub).length_le
  calc g.edgeCount
      = (g.lists.toList.map List.length).sum := h.edgeCount_eq
    _ ≤ (g.lists.toList.map List.length).length • g.order := List.sum_le_card_nsmul _ _ hlength
    _ = g.order * g.order := by
      rw [List.length_map, Array.length_toList, h.size_lists, smul_eq_mul]

/-! ## Histories -/

/-- **What one call does to a list**: an edge that is admissible and new goes to the end
of the list of its source. -/
theorem WellFormed.successors_addEdge (h : g.WellFormed) (u w v : Int) :
    (g.addEdge u w).2.successors v =
      if u = v ∧ Edge.Admissible g.order g.looped ⟨u, w⟩ ∧ w ∉ g.successors v
      then g.successors v ++ [w] else g.successors v := by
  rcases addEdge_cases g u w with ⟨fault, ha⟩ | ha
  · rw [ha]
    refine (if_neg ?_).symm
    rintro ⟨rfl, hnew⟩
    exact not_new_of_addEdge_eq_error ha hnew
  · obtain ⟨hadmissible, hnew, -⟩ := addEdge_eq_ok.mp ha
    rw [ha, h.successors_withEdge hadmissible.1]
    by_cases hv : v = u
    · subst hv
      rw [if_pos rfl, if_pos ⟨rfl, hadmissible, hnew⟩]
    · rw [if_neg hv, if_neg fun hcase => hv hcase.1.symm]

theorem order_addEdge (g : Graph) (u v : Int) :
    (g.addEdge u v).2.order = g.order ∧ (g.addEdge u v).2.looped = g.looped := by
  rcases addEdge_cases g u v with ⟨fault, ha⟩ | ha <;> rw [ha] <;> exact ⟨rfl, rfl⟩

theorem order_replay (g : Graph) (es : List Edge) :
    (g.replay es).order = g.order ∧ (g.replay es).looped = g.looped := by
  induction es generalizing g with
  | nil => exact ⟨rfl, rfl⟩
  | cons e es ih =>
    obtain ⟨horder, hlooped⟩ := ih (g.addEdge e.source e.target).2
    obtain ⟨horder', hlooped'⟩ := order_addEdge g e.source e.target
    exact ⟨horder.trans horder', hlooped.trans hlooped'⟩

/-- **The successors of a vertex are its history**: after those it had come the targets
that were asked for in admissible edges, each where it was first asked for. -/
theorem Built.successors_replay (h : g.Built) (es : List Edge) (v : Int) :
    (g.replay es).successors v =
      (g.successors v ++ (es.filter fun e =>
        e.source = v ∧ e.Admissible g.order g.looped).map Edge.target).eraseDups := by
  -- the last call adds to what the calls before it have left
  induction es using List.reverseRecOn with
  | nil =>
    rw [List.filter_nil, List.map_nil, List.append_nil,
      eraseDups_of_nodup (h.wellFormed.nodup_successors v)]
    rfl
  | append_singleton es e ih =>
    have hstep : g.replay (es ++ [e]) = ((g.replay es).addEdge e.source e.target).2 := by
      simp only [Graph.replay, List.foldl_append, List.foldl_cons, List.foldl_nil]
    obtain ⟨horder, hlooped⟩ := order_replay g es
    rw [hstep, (h.replay es).wellFormed.successors_addEdge, horder, hlooped, ih, List.filter_append,
      List.map_append, ← List.append_assoc]
    by_cases hcase : e.source = v ∧ e.Admissible g.order g.looped
    · rw [List.filter_cons_of_pos (by simpa using hcase), List.filter_nil, List.map_singleton,
        eraseDups_concat]
      by_cases hold : e.target ∈ (g.successors v ++ (es.filter fun e =>
          e.source = v ∧ e.Admissible g.order g.looped).map Edge.target).eraseDups
      · rw [if_pos hold, if_neg fun hnew => hnew.2.2 hold]
      · rw [if_neg hold, if_pos ⟨hcase.1, hcase.2, hold⟩]
    · rw [List.filter_cons_of_neg (by simpa using hcase), List.filter_nil, List.map_nil,
        List.append_nil, if_neg fun hnew => hcase ⟨hnew.1, hnew.2.1⟩]

/-- **A call is accepted if its edge is admissible and new**, and changes nothing
otherwise. -/
theorem addEdge_spec (g : Graph) (e : Edge) :
    ((g.addEdge e.source e.target).1 = .ok () ↔ e.Admissible g.order g.looped ∧ e ∉ g.edges) ∧
      ((g.addEdge e.source e.target).1 ≠ .ok () → (g.addEdge e.source e.target).2 = g) := by
  rw [mem_edges]
  rcases addEdge_cases g e.source e.target with ⟨fault, ha⟩ | ha
  · rw [ha]
    exact ⟨iff_of_false (fun h => nomatch h) (not_new_of_addEdge_eq_error ha), fun _ => rfl⟩
  · obtain ⟨hadmissible, hnew, -⟩ := addEdge_eq_ok.mp ha
    rw [ha]
    exact ⟨iff_of_true rfl ⟨hadmissible, hnew⟩, fun h => absurd rfl h⟩

/-- **The invariant of graphs, over every history.** Whatever a graph was built by, and
whatever calls for edges were made on it since, it is well-formed; its counter is the
number of its edges, which is at most the number of pairs of vertices and fits in a
machine word; it has just the edges that it lists; and a call for one more edge is
accepted if that is admissible and new, and leaves the graph as it is otherwise. From a
graph without edges, the successors of a vertex are the targets of the admissible calls
for its edges, in the order of the calls, repetitions left out. -/
theorem invariant_of_every_history (h : g.Built) (es : List Edge) :
    let r := g.replay es
    r.WellFormed ∧
      (r.edges.length = r.edgeCount ∧ r.edgeCount ≤ r.order * r.order ∧
        r.order * r.order < 2 ^ 63) ∧
      (∀ u v : Int, r.hasEdge u v = true ↔ ⟨u, v⟩ ∈ r.edges) ∧
      (∀ e : Edge, ((r.addEdge e.source e.target).1 = .ok () ↔
          e.Admissible r.order r.looped ∧ e ∉ r.edges) ∧
        ((r.addEdge e.source e.target).1 ≠ .ok () → (r.addEdge e.source e.target).2 = r)) ∧
      ∀ (n : Int) (ps : List Permission), ofOrder n ps = .ok g →
        r.order = n.toNat ∧ r.looped = allowsLoops ps ∧ ∀ v : Int, r.successors v =
          ((es.filter fun e => e.source = v ∧ e.Admissible n.toNat (allowsLoops ps)).map
            Edge.target).eraseDups := by
  intro r
  have hwell : r.WellFormed := (h.replay es).wellFormed
  have hword : r.order * r.order < 2 ^ 63 :=
    calc r.order * r.order
        ≤ maxOrder * maxOrder := Nat.mul_le_mul hwell.order_le hwell.order_le
      _ < 2 ^ 63 := by decide
  refine ⟨hwell, ⟨hwell.length_edges, hwell.edgeCount_le, hword⟩,
    fun u v => hasEdge_iff.trans (mem_edges (e := ⟨u, v⟩)).symm, addEdge_spec r,
    fun n ps hstart => ?_⟩
  obtain ⟨horder, hlooped⟩ := order_replay g es
  have hg := order_of_ofOrder hstart
  refine ⟨horder.trans hg.1, hlooped.trans hg.2, fun v => ?_⟩
  rw [show r.successors v = _ from h.successors_replay es v, successors_of_ofOrder hstart,
    List.nil_append, hg.1, hg.2]

/-- Of six calls on three vertices, a repetition, a loop and two edges out of range
leave no trace. -/
theorem invariant_of_every_history_sample :
    let g : Graph := { order := 3, looped := false, lists := #[[], [], []], edgeCount := 0 }
    let es : List Edge := [⟨0, 2⟩, ⟨1, 1⟩, ⟨0, 1⟩, ⟨0, 2⟩, ⟨-1, 0⟩, ⟨2, 3⟩]
    (g.Built ∧ ofOrder 3 [] = .ok g) ∧
      (g.replay es).WellFormed ∧ (g.replay es).edges.length = 2 ∧
      (g.replay es).successors 0 = [2, 1] := by
  intro g es
  have hstart : ofOrder 3 [] = .ok g := rfl
  obtain ⟨hwell, ⟨hcount, -⟩, -, -, hhistory⟩ :=
    invariant_of_every_history (Built.ofOrder hstart) es
  exact ⟨⟨.ofOrder hstart, hstart⟩, hwell, hcount.trans (by cbv),
    ((hhistory 3 [] hstart).2.2 0).trans (by cbv)⟩

end Graph

end TopologicalOrder
