import Mathlib
import TopologicalOrder.Proofs.EdgeText
import TopologicalOrder.Proofs.History

/-!
# Graphs rebuilt from what they say about themselves

A graph tells its edges as a list, as an adjacency and, edge by edge, as text. Each of
these determines it: a graph without edges, to which the edges are added in the order in
which they are listed, becomes the graph again (`Graph.WellFormed.adds_edges`). The edges
are accepted since they are admissible and all different, and the list of a vertex comes
out in its order since the edges of one source are listed in the order of its list
(`Graph.targets_edges`).

An adjacency leaves out the vertices without successors, and is read in ascending order
of its keys. The edges that it lists then are just those of the graph
(`Graph.flatMap_sorted_adjacency`), so nothing is to be shown twice.
-/

namespace TopologicalOrder.Graph

variable {g r : Graph} {v : Int} {ps : List Permission}

/-- **A well-formed graph is determined by its successors.** -/
theorem WellFormed.eq_of_successors (hg : g.WellFormed) (hr : r.WellFormed)
    (horder : r.order = g.order) (hlooped : r.looped = g.looped)
    (h : ∀ v, r.successors v = g.successors v) : r = g := by
  have hlists : r.lists = g.lists := by
    rw [← Array.toList_inj, hr.toList_lists, hg.toList_lists, horder]
    exact List.map_congr_left fun v _ => h v
  have hcount : r.edgeCount = g.edgeCount := by
    rw [hr.edgeCount_eq, hg.edgeCount_eq, hlists]
  cases r
  cases g
  simp only [Graph.mk.injEq]
  exact ⟨horder, hlooped, hlists, hcount⟩

/-! ## The edges of a graph -/

/-- No edge is listed twice. -/
theorem WellFormed.nodup_edges (h : g.WellFormed) : g.edges.Nodup := by
  unfold edges
  refine List.nodup_flatMap.mpr ⟨fun u _ => ?_, ?_⟩
  · exact (h.nodup_successors u).map fun v w hvw => congrArg Edge.target hvw
  · refine (nodup_vertices g.order).imp fun {u w} huw e he hf => huw ?_
    obtain ⟨v, -, rfl⟩ := List.mem_map.mp he
    obtain ⟨x, -, hx⟩ := List.mem_map.mp hf
    exact (congrArg Edge.source hx).symm

/-- Of lists that were put one behind the other, with the vertex they belong to at each
entry, the list of a vertex is recovered by its entries. -/
theorem targets_flatMap (f : Int → List Int) {us : List Int} (hnodup : us.Nodup) (v : Int) :
    ((us.flatMap fun u => (f u).map fun w => Edge.mk u w).filter fun e => e.source = v).map
      Edge.target = if v ∈ us then f v else [] := by
  induction us with
  | nil => rfl
  | cons u us ih =>
    obtain ⟨hu, hnodup⟩ := List.nodup_cons.mp hnodup
    rw [List.flatMap_cons, List.filter_append, List.map_append, ih hnodup]
    by_cases huv : u = v
    · subst huv
      have hall : ((f u).map fun w => Edge.mk u w).filter (fun e => e.source = u) =
          (f u).map fun w => Edge.mk u w :=
        List.filter_eq_self.mpr fun e he => by
          obtain ⟨w, -, rfl⟩ := List.mem_map.mp he
          exact decide_eq_true rfl
      rw [hall, List.map_map, if_neg hu, if_pos List.mem_cons_self, List.append_nil]
      exact List.map_id _
    · have hnone : ((f u).map fun w => Edge.mk u w).filter (fun e => e.source = v) = [] :=
        List.filter_eq_nil_iff.mpr fun e he => by
          obtain ⟨w, -, rfl⟩ := List.mem_map.mp he
          simpa using huv
      rw [hnone, List.map_nil, List.nil_append]
      simp only [List.mem_cons, show v ≠ u from fun h => huv h.symm, false_or]

/-- **The edges of one source are listed in the order of its list.** -/
theorem targets_edges (g : Graph) (v : Int) :
    (g.edges.filter fun e => e.source = v).map Edge.target = g.successors v := by
  refine (targets_flatMap g.successors (nodup_vertices g.order) v).trans ?_
  split
  · rfl
  · rename_i hv
    exact (successors_of_not_isVertex fun hvertex => hv (mem_vertices.mpr hvertex)).symm

/-- **Adding its edges to a graph without edges yields the graph.** -/
theorem WellFormed.adds_edges (h : g.WellFormed) {g₀ : Graph} (hps : allowsLoops ps = g.looped)
    (hstart : ofOrder g.order ps = .ok g₀) : Adds g.edges g₀ g := by
  have hwell : g₀.WellFormed := wellFormed_of_ofOrder hstart
  have hkept : g₀.order = g.order ∧ g₀.looped = g.looped := hps ▸ order_of_ofOrder hstart
  have hnew : ∀ e ∈ g.edges,
      e.Admissible g₀.order g₀.looped ∧ e.target ∉ g₀.successors e.source := by
    intro e he
    rw [hkept.1, hkept.2, successors_of_ofOrder hstart]
    exact ⟨h.admissible_of_mem (mem_edges.mp he), List.not_mem_nil⟩
  obtain ⟨r, hr⟩ := hwell.exists_adds hnew h.nodup_edges
  have hrg : r = g := by
    refine h.eq_of_successors (hr.wellFormed hwell) (hr.order_eq.1.trans hkept.1)
      (hr.order_eq.2.trans hkept.2) fun v => ?_
    rw [hr.successors_eq hwell, successors_of_ofOrder hstart, List.nil_append, targets_edges]
  exact hrg ▸ hr

theorem WellFormed.exists_start (h : g.WellFormed) (ps : List Permission) :
    ∃ g₀, ofOrder g.order ps = .ok g₀ :=
  ⟨_, ofOrder_eq_ok.mpr ⟨⟨Int.natCast_nonneg _, Int.ofNat_le.mpr h.order_le⟩, rfl⟩⟩

/-! ## The adjacency of a graph -/

theorem sorted_adjacency (g : Graph) : g.adjacency.sorted = g.adjacency.entries := by
  unfold Adjacency.sorted
  refine List.mergeSort_of_pairwise (List.pairwise_map.mpr ?_)
  exact ((pairwise_lt_vertices g.order).filter _).imp fun h => decide_eq_true (le_of_lt h)

/-- **The adjacency lists the edges of its graph**: those that it leaves out have no
edges. -/
theorem flatMap_sorted_adjacency (g : Graph) :
    (g.adjacency.sorted.flatMap fun x => x.2.map fun v => Edge.mk x.1 v) = g.edges := by
  rw [sorted_adjacency]
  unfold adjacency edges
  rw [List.flatMap_map]
  induction vertices g.order with
  | nil => rfl
  | cons u us ih =>
    rw [List.flatMap_cons, ← ih]
    by_cases hu : g.successors u = []
    · rw [List.filter_cons_of_neg (by simp [hu]), hu, List.map_nil, List.nil_append]
    · rw [List.filter_cons_of_pos (by simp [hu]), List.flatMap_cons]

/-- **A graph and its adjacency agree on the successors** of every number. -/
theorem successors_adjacency (g : Graph) (v : Int) :
    g.adjacency.successors v = g.successors v := by
  unfold Adjacency.successors Adjacency.get? adjacency
  by_cases hv : g.successors v = []
  · -- a vertex without successors is no key
    have hnone : List.lookup v (((vertices g.order).filter fun v =>
        !(g.successors v).isEmpty).map fun v => (v, g.successors v)) = none := by
      refine List.lookup_eq_none_iff.mpr fun p hp => ?_
      obtain ⟨u, hu, rfl⟩ := List.mem_map.mp hp
      have hne : g.successors u ≠ [] := by simpa using (List.mem_filter.mp hu).2
      exact bne_iff_ne.mpr fun hvu : v = u => hne (hvu ▸ hv)
    rw [hnone, hv]
    rfl
  · have hvertex : IsVertex g.order v :=
      Classical.byContradiction fun hnot => hv (successors_of_not_isVertex hnot)
    have hmem : v ∈ (vertices g.order).filter fun v => !(g.successors v).isEmpty :=
      List.mem_filter.mpr ⟨mem_vertices.mpr hvertex, by simpa using hv⟩
    rw [List.lookup_graph g.successors hmem]
    rfl

/-- **A graph is built from its adjacency**, with permissions that allow loops if it does. -/
theorem WellFormed.ofAdjacency_adjacency (h : g.WellFormed) (hps : allowsLoops ps = g.looped) :
    ofAdjacency g.order g.adjacency ps = .ok g := by
  obtain ⟨g₀, hstart⟩ := h.exists_start ps
  refine ofAdjacency_eq_ok.mpr ⟨g₀, hstart, fun x hx => ?_, ?_⟩
  · -- the keys are vertices
    rw [sorted_adjacency] at hx
    obtain ⟨v, hv, rfl⟩ := List.mem_map.mp hx
    rw [(order_of_ofOrder hstart).1]
    exact mem_vertices.mp (List.mem_of_mem_filter hv)
  · rw [flatMap_sorted_adjacency]
    exact h.adds_edges hps hstart

/-! ## The result -/

/-- The edges of a graph can be read, since vertices are small. -/
theorem WellFormed.readable_of_mem (h : g.WellFormed) {e : Edge} (he : e ∈ g.edges) :
    e.Readable := by
  obtain ⟨⟨hsource, hs⟩, ⟨htarget, ht⟩⟩ := h.isVertex_of_mem (mem_edges.mp he)
  have hword : (g.order : Int) ≤ 2 ^ 63 := by
    have hmax : maxOrder ≤ 2 ^ 63 := by decide
    exact_mod_cast h.order_le.trans hmax
  exact ⟨⟨hsource, lt_of_lt_of_le hs hword⟩, ⟨htarget, lt_of_lt_of_le ht hword⟩⟩

/-- **Every way to tell a graph rebuilds it.** Whatever a graph was built by, its
adjacency, its list of edges, and every text that holds its edges with separators around
them, such as the edges joined by separators, are accepted with permissions that allow
loops if the graph does, and yield the same graph: the same order, the same lists in the
same order, the same counter. The adjacency and a copy agree with the graph on the
successors of every number, be it a vertex or not. -/
theorem rebuilt_from_every_form (h : g.Built) :
    (∀ ps, allowsLoops ps = g.looped → ofAdjacency g.order g.adjacency ps = .ok g ∧
      ofEdges g.order g.edges ps = .ok g ∧
      ∀ text, Separated (g.edges.map Edge.render) text →
        ∃ es, parseEdgeList text = .ok es ∧ ofEdges g.order es ps = .ok g) ∧
      (∀ gap, gap ≠ [] → (∀ b ∈ gap, isSeparator b = true) →
        Separated (g.edges.map Edge.render) (gap.intercalate (g.edges.map Edge.render))) ∧
      ∀ v : Int, g.adjacency.successors v = g.successors v ∧
        g.clone.successors v = g.successors v := by
  have hwell := h.wellFormed
  refine ⟨fun ps hps => ?_, fun gap hne hgap => separated_intercalate hne hgap _,
    fun v => ⟨successors_adjacency g v, by rw [hwell.clone_eq]⟩⟩
  obtain ⟨g₀, hstart⟩ := hwell.exists_start ps
  have hedges : ofEdges g.order g.edges ps = .ok g :=
    ofEdges_eq_ok.mpr ⟨g₀, hstart, hwell.adds_edges hps hstart⟩
  refine ⟨hwell.ofAdjacency_adjacency hps, hedges, fun text htext => ?_⟩
  exact ⟨g.edges, parseEdgeList_of_separated (fun e he => hwell.readable_of_mem he) htext, hedges⟩

/-- A graph whose lists do not ascend, and one of whose vertices has no successors. -/
theorem rebuilt_from_every_form_sample :
    let g : Graph := { order := 3, looped := true, lists := #[[2, 0], [], [1]], edgeCount := 3 }
    let text := Number.asciiBytes ", 0>2;0>0\n 2>1 "
    g.Built ∧ Separated (g.edges.map Edge.render) text ∧
      ofAdjacency 3 g.adjacency [.loops] = .ok g ∧ ofEdges 3 g.edges [.loops] = .ok g ∧
      (∃ es, parseEdgeList text = .ok es ∧ ofEdges 3 es [.loops] = .ok g) ∧
      g.adjacency.successors 7 = g.successors 7 := by
  intro g text
  have hbuilt : g.Built :=
    .ofEdges (show ofEdges 3 [⟨2, 1⟩, ⟨0, 2⟩, ⟨0, 0⟩] [.loops] = .ok g from rfl)
  have htext : Separated (g.edges.map Edge.render) text := by
    have hpieces : g.edges.map Edge.render =
        [Number.asciiBytes "0>2", Number.asciiBytes "0>0", Number.asciiBytes "2>1"] := by decide
    have htext : text = Number.asciiBytes ", " ++ Number.asciiBytes "0>2" ++
        (Number.asciiBytes ";" ++ Number.asciiBytes "0>0" ++
          (Number.asciiBytes "\n " ++ Number.asciiBytes "2>1" ++ Number.asciiBytes " ")) := by
      decide
    rw [hpieces, htext]
    refine .piece ?_ ?_ (.piece ?_ ?_ (.piece ?_ ?_ (.blank ?_))) <;> decide +kernel
  obtain ⟨hforms, -, hsuccessors⟩ := rebuilt_from_every_form hbuilt
  obtain ⟨hadjacency, hedges, hread⟩ := hforms [.loops] rfl
  exact ⟨hbuilt, htext, hadjacency, hedges, hread text htext, (hsuccessors 7).1⟩

end TopologicalOrder.Graph
