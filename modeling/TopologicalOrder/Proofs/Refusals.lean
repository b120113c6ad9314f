import Mathlib
import TopologicalOrder.Proofs.EdgeLists
import TopologicalOrder.Proofs.Rebuilding

/-!
# What becomes of a list of edges

A graph is built from a list of edges by adding one after the other, and an edge is judged
by the graph that the edges before it have made. Here the outcome is said in terms of the
list alone. What is wrong with an edge depends on the edges before it only by whether it is
one of them (`Edge.Refused.congr`), and the graph has just the edges that came before
(`Graph.Adds.mem_edges_iff`). So a build fails at the first edge of the list that is refused
after those that stand before it (`Graph.firstRefused_of_addEdges`).

If it succeeds, the edges of the graph are those of the list with the sources ascending,
and edges of one source keep their order. That is the list, sorted by source by a stable
sort: a list with ascending sources is determined by what it holds of each source
(`eq_of_filter_source_eq`), and a stable sort leaves that alone
(`filter_source_mergeSort`).
-/

namespace TopologicalOrder

variable {n : Nat} {looped : Bool} {e d : Edge} {es before : List Edge} {fault : EdgeFault}

/-! ## Simple lists, and the first edge that is refused -/

/-- **Nothing is wrong with an edge that is admissible and new.** -/
theorem Edge.Refused.not_admissible_and_new (h : e.Refused n looped before fault) :
    ¬ (e.Admissible n looped ∧ e ∉ before) := by
  rintro ⟨⟨hs, ht, hne⟩, hnew⟩
  cases h with
  | source hsource => exact hsource hs
  | target _ htarget => exact htarget ht
  | loop _ hloop hoff => exact hne.elim (fun h => h hloop) fun h => nomatch hoff.symm.trans h
  | duplicate _ hmem => exact hnew hmem

/-- What is wrong with an edge depends on the edges before it only by whether it is one of
them. -/
theorem Edge.Refused.congr {before' : List Edge} (h : e.Refused n looped before fault)
    (hmem : e ∈ before ↔ e ∈ before') : e.Refused n looped before' fault := by
  cases h with
  | source hsource => exact .source hsource
  | target hsource htarget => exact .target hsource htarget
  | loop hsource hloop hoff => exact .loop hsource hloop hoff
  | duplicate hadmissible hold => exact .duplicate hadmissible (hmem.mp hold)

/-- **A list of edges that a graph of `n` vertices may have.** -/
structure SimpleEdges (n : Nat) (looped : Bool) (es : List Edge) : Prop where
  /-- All ends are vertices. -/
  isVertex : ∀ e ∈ es, IsVertex n e.source ∧ IsVertex n e.target
  /-- No edge is repeated. -/
  nodup : es.Nodup
  /-- No edge is a loop unless loops are allowed. -/
  loopless : looped = false → ∀ e ∈ es, e.source ≠ e.target

theorem simpleEdges_iff :
    SimpleEdges n looped es ↔ (∀ e ∈ es, e.Admissible n looped) ∧ es.Nodup := by
  constructor
  · intro h
    refine ⟨fun e he => ⟨(h.isVertex e he).1, (h.isVertex e he).2, ?_⟩, h.nodup⟩
    cases looped with
    | false => exact Or.inl (h.loopless rfl e he)
    | true => exact Or.inr rfl
  · rintro ⟨hadmissible, hnodup⟩
    refine ⟨fun e he => ⟨(hadmissible e he).1, (hadmissible e he).2.1⟩, hnodup, fun hoff e he => ?_⟩
    exact (hadmissible e he).2.2.resolve_right fun hon => nomatch hoff.symm.trans hon

/-- **The edge at `i` is the first of the list that is refused**, for the reason `fault`. -/
structure FirstRefused (n : Nat) (looped : Bool) (es : List Edge) (i : Nat) (fault : EdgeFault) :
    Prop where
  /-- It is refused. -/
  refused : ∃ e, es[i]? = some e ∧ e.Refused n looped (es.take i) fault
  /-- No edge before it is. -/
  least : ∀ (j : Nat) (d : Edge), j < i → es[j]? = some d →
    ∀ f, ¬ d.Refused n looped (es.take j) f

/-- What stands at a place of a list without repetitions stands nowhere before it. -/
theorem not_mem_take_of_nodup {α : Type} {l : List α} {i : Nat} {a : α} (h : l.Nodup)
    (hi : l[i]? = some a) : a ∉ l.take i := by
  intro hmem
  obtain ⟨j, hj, hja⟩ := List.mem_take_iff_getElem.mp hmem
  obtain ⟨hlt, hia⟩ := List.getElem?_eq_some_iff.mp hi
  have hji : j = i := h.getElem_inj_iff.mp (hja.trans hia.symm)
  omega

/-- A list with an edge that is refused is none that a graph may have. -/
theorem FirstRefused.not_simpleEdges {i : Nat} (h : FirstRefused n looped es i fault) :
    ¬ SimpleEdges n looped es := by
  intro hsimple
  obtain ⟨hadmissible, hnodup⟩ := simpleEdges_iff.mp hsimple
  obtain ⟨e, he, hrefused⟩ := h.refused
  exact hrefused.not_admissible_and_new
    ⟨hadmissible e (List.mem_of_getElem? he), not_mem_take_of_nodup hnodup he⟩

namespace Graph

variable {g q r : Graph} {u v : Int}

/-- **After the edges of a list, an edge is in the graph if it is in the list**, provided
that its source had no edges before. -/
theorem Adds.mem_edges_iff (h : Adds es g r) (hg : g.WellFormed)
    (hnone : g.successors e.source = []) : e ∈ r.edges ↔ e ∈ es := by
  rw [mem_edges, h.successors_eq hg, hnone, List.nil_append, mem_targets]

/-- **A build that fails names the first edge that is refused**, if the sources of its edges
had no edges before. -/
theorem firstRefused_of_addEdges {err : GraphError} (hg : g.WellFormed)
    (hnone : ∀ e ∈ es, g.successors e.source = []) (h : addEdges 0 es g = .error err) :
    ∃ i fault, err = .badEdge i fault ∧ FirstRefused g.order g.looped es i fault := by
  obtain ⟨before, e, after, q, fault, rfl, hadds, hrefused, rfl⟩ := addEdges_eq_error h
  obtain ⟨horder, hlooped⟩ := hadds.order_eq
  obtain ⟨hnodup, hfresh⟩ := hadds.fresh hg
  refine ⟨before.length, fault, by rw [Nat.zero_add], ⟨e, ?_, ?_⟩, fun j d hj hd f hd' => ?_⟩
  · rw [List.getElem?_append_right (le_refl _), Nat.sub_self, List.getElem?_cons_zero]
  · rw [List.take_left, ← horder, ← hlooped]
    exact (addEdge_eq_error hrefused).congr
      (hadds.mem_edges_iff hg (hnone e (List.mem_append_right _ List.mem_cons_self)))
  · rw [List.getElem?_append_left hj] at hd
    rw [List.take_append_of_le_length hj.le] at hd'
    exact hd'.not_admissible_and_new
      ⟨(hfresh d (List.mem_of_getElem? hd)).1, not_mem_take_of_nodup hnodup hd⟩

/-- **A list is added or refused**, according to what it is: all its edges are accepted if
the list is simple, and otherwise the build fails at the first edge that is refused. -/
theorem WellFormed.addEdges_cases (hg : g.WellFormed)
    (hnone : ∀ e ∈ es, g.successors e.source = []) :
    (SimpleEdges g.order g.looped es ∧ ∃ r, Adds es g r) ∨
      ∃ i fault, addEdges 0 es g = .error (.badEdge i fault) ∧
        FirstRefused g.order g.looped es i fault := by
  cases h : Graph.addEdges 0 es g with
  | ok r =>
    have hadds := addEdges_eq_ok.mp h
    obtain ⟨hnodup, hfresh⟩ := hadds.fresh hg
    exact Or.inl ⟨simpleEdges_iff.mpr ⟨fun e he => (hfresh e he).1, hnodup⟩, r, hadds⟩
  | error err =>
    obtain ⟨i, fault, rfl, hfirst⟩ := firstRefused_of_addEdges hg hnone h
    exact Or.inr ⟨i, fault, rfl, hfirst⟩

end Graph

/-! ## Edges sorted by their sources -/

/-- Lists with the same edges of each source have the same edges. -/
theorem mem_iff_of_filter_source_eq {ds : List Edge}
    (h : ∀ u, (ds.filter fun e => e.source = u) = es.filter fun e => e.source = u) :
    e ∈ ds ↔ e ∈ es := by
  simpa using congrArg (e ∈ ·) (h e.source)

/-- **A list of edges with ascending sources is determined by its edges of each source.** -/
theorem eq_of_filter_source_eq {ds : List Edge}
    (hds : ds.Pairwise fun d e => d.source ≤ e.source)
    (hes : es.Pairwise fun d e => d.source ≤ e.source)
    (h : ∀ u, (ds.filter fun e => e.source = u) = es.filter fun e => e.source = u) : ds = es := by
  induction hds generalizing es with
  | nil =>
    refine (List.eq_nil_iff_forall_not_mem.mpr fun e he => ?_).symm
    exact List.not_mem_nil ((mem_iff_of_filter_source_eq h).mpr he)
  | @cons d ds hd _ ih =>
    cases hes with
    | nil =>
      exact absurd ((mem_iff_of_filter_source_eq h).mp List.mem_cons_self) List.not_mem_nil
    | @cons e es he hes =>
      -- both lists start with an edge of the least source there is
      have hle : d.source ≤ e.source := by
        rcases List.mem_cons.mp ((mem_iff_of_filter_source_eq h).mpr List.mem_cons_self) with
          heq | hmem
        · rw [heq]
        · exact hd e hmem
      have hge : e.source ≤ d.source := by
        rcases List.mem_cons.mp ((mem_iff_of_filter_source_eq h).mp List.mem_cons_self) with
          heq | hmem
        · rw [heq]
        · exact he d hmem
      have hhead := h d.source
      rw [List.filter_cons_of_pos (by simp),
        List.filter_cons_of_pos (by simpa using le_antisymm hge hle)] at hhead
      obtain ⟨rfl, -⟩ := List.cons.inj hhead
      refine congrArg (d :: ·) (ih hes fun u => ?_)
      have hu := h u
      rw [List.filter_cons, List.filter_cons] at hu
      split at hu
      · exact (List.cons.inj hu).2
      · exact hu

section SortedByKey

variable {α : Type} (key : α → Int)

theorem key_le_trans (a b c : α) (hab : decide (key a ≤ key b) = true)
    (hbc : decide (key b ≤ key c) = true) : decide (key a ≤ key c) = true :=
  decide_eq_true ((of_decide_eq_true hab).trans (of_decide_eq_true hbc))

theorem key_le_total (a b : α) : (decide (key a ≤ key b) || decide (key b ≤ key a)) = true := by
  simpa using le_total (key a) (key b)

theorem pairwise_mergeSort_key (l : List α) :
    (l.mergeSort fun a b => key a ≤ key b).Pairwise fun a b => key a ≤ key b :=
  (List.pairwise_mergeSort (key_le_trans key) (key_le_total key) l).imp of_decide_eq_true

end SortedByKey

/-- **A stable sort leaves the edges of one source in their order.** -/
theorem filter_source_mergeSort (es : List Edge) (u : Int) :
    ((es.mergeSort fun d e => d.source ≤ e.source).filter fun e => e.source = u) =
      es.filter fun e => e.source = u := by
  -- the edges of one source are sorted as they stand
  have hsorted : (es.filter fun e => e.source = u).Pairwise
      fun d e => decide (d.source ≤ e.source) = true := by
    refine List.pairwise_of_forall_mem_list fun d hd e he => decide_eq_true ?_
    rw [of_decide_eq_true (List.mem_filter.mp hd).2, of_decide_eq_true (List.mem_filter.mp he).2]
  have hsub := (List.sublist_mergeSort (key_le_trans Edge.source) (key_le_total Edge.source)
    hsorted List.filter_sublist).filter fun e => decide (e.source = u)
  rw [List.filter_filter] at hsub
  simp only [Bool.and_self] at hsub
  exact (hsub.eq_of_length ((List.mergeSort_perm es _).filter _).length_eq.symm).symm

/-- Of the edges of one source only the targets matter. -/
theorem map_target_filter_source (es : List Edge) (u : Int) :
    ((es.filter fun e => e.source = u).map Edge.target).map (Edge.mk u) =
      es.filter fun e => e.source = u := by
  rw [List.map_map]
  refine (List.map_congr_left fun e he => ?_).trans (List.map_id _)
  obtain rfl := of_decide_eq_true (List.mem_filter.mp he).2
  rfl

namespace Graph

variable {g g₀ : Graph} {n : Int} {ps : List Permission}

/-- **A graph lists its edges with the sources ascending.** -/
theorem pairwise_edges (g : Graph) : g.edges.Pairwise fun d e => d.source ≤ e.source := by
  unfold edges
  refine List.pairwise_flatMap.mpr ⟨fun u _ => ?_, ?_⟩
  · refine List.pairwise_of_forall_mem_list fun d hd e he => ?_
    obtain ⟨v, -, rfl⟩ := List.mem_map.mp hd
    obtain ⟨w, -, rfl⟩ := List.mem_map.mp he
    exact le_refl u
  · refine (pairwise_lt_vertices g.order).imp fun {u w} huw d hd e he => ?_
    obtain ⟨v, -, rfl⟩ := List.mem_map.mp hd
    obtain ⟨x, -, rfl⟩ := List.mem_map.mp he
    exact huw.le

section FromNoEdges

variable (hstart : ofOrder n ps = .ok g₀) (hadds : Adds es g₀ g)
include hstart hadds

theorem successors_of_adds (u : Int) :
    g.successors u = (es.filter fun e => e.source = u).map Edge.target := by
  rw [hadds.successors_eq (wellFormed_of_ofOrder hstart), successors_of_ofOrder hstart,
    List.nil_append]

/-- **The edges of a graph are those that were added, sorted by source.** -/
theorem edges_of_adds : g.edges = es.mergeSort fun d e => d.source ≤ e.source := by
  refine eq_of_filter_source_eq (pairwise_edges g) (pairwise_mergeSort_key Edge.source es)
    fun u => ?_
  rw [filter_source_mergeSort, ← map_target_filter_source g.edges, targets_edges,
    successors_of_adds hstart hadds, map_target_filter_source]

theorem edgeCount_of_adds : g.edgeCount = es.length := by
  rw [← (hadds.wellFormed (wellFormed_of_ofOrder hstart)).length_edges,
    edges_of_adds hstart hadds, List.length_mergeSort]

end FromNoEdges

/-! ## The result -/

/-- **Just the simple lists of edges make a graph.** A list is accepted exactly if the number
of vertices is allowed, all ends are vertices, no edge is repeated, and none is a loop unless
loops are allowed. The graph then lists the edges sorted by source by a stable sort, so that
the successors of each vertex are the targets of its edges in the order of the list, and
counts as many edges as the list has. If the number of vertices is allowed and the list is
not, the error names the first edge that is refused, and what is wrong with it. -/
theorem ofEdges_of_simple_lists (n : Int) (es : List Edge) (ps : List Permission) :
    ((∃ g, ofEdges n es ps = .ok g) ↔
        (0 ≤ n ∧ n ≤ maxOrder) ∧ SimpleEdges n.toNat (allowsLoops ps) es) ∧
      (∀ g, ofEdges n es ps = .ok g →
        (g.order : Int) = n ∧ g.looped = allowsLoops ps ∧
          g.edges = (es.mergeSort fun d e => d.source ≤ e.source) ∧
          (∀ u, g.successors u = (es.filter fun e => e.source = u).map Edge.target) ∧
          g.edgeCount = es.length) ∧
      (0 ≤ n ∧ n ≤ maxOrder → ¬ SimpleEdges n.toNat (allowsLoops ps) es →
        ∃ i fault, ofEdges n es ps = .error (.badEdge i fault) ∧
          FirstRefused n.toNat (allowsLoops ps) es i fault) := by
  refine ⟨?_, fun g h => ?_, fun hn hsimple => ?_⟩
  · rw [exists_ofEdges_iff, simpleEdges_iff]
  · obtain ⟨g₀, hstart, hadds⟩ := ofEdges_eq_ok.mp h
    exact ⟨order_of_ofEdges h, hadds.order_eq.2.trans (order_of_ofOrder hstart).2,
      edges_of_adds hstart hadds, successors_of_adds hstart hadds, edgeCount_of_adds hstart hadds⟩
  · obtain ⟨g₀, hstart⟩ : ∃ g₀, ofOrder n ps = .ok g₀ := ⟨_, ofOrder_eq_ok.mpr ⟨hn, rfl⟩⟩
    have hcases := (wellFormed_of_ofOrder hstart).addEdges_cases
      fun e (_ : e ∈ es) => successors_of_ofOrder hstart e.source
    rw [(order_of_ofOrder hstart).1, (order_of_ofOrder hstart).2] at hcases
    obtain ⟨i, fault, herror, hfirst⟩ := hcases.resolve_left fun h => hsimple h.1
    refine ⟨i, fault, ?_, hfirst⟩
    unfold ofEdges
    rw [hstart]
    exact herror

/-- A list whose sources do not ascend, and one with a loop before a repetition and an end
that is no vertex: which of them is the first to be refused depends on whether loops are
allowed. -/
theorem ofEdges_of_simple_lists_samples :
    let es : List Edge := [⟨2, 0⟩, ⟨0, 2⟩, ⟨2, 1⟩, ⟨0, 1⟩]
    let ds : List Edge := [⟨0, 2⟩, ⟨1, 1⟩, ⟨0, 2⟩, ⟨0, 3⟩]
    (∃ g, ofEdges 3 es [] = .ok g ∧ g.edges = [⟨0, 2⟩, ⟨0, 1⟩, ⟨2, 0⟩, ⟨2, 1⟩] ∧
        g.successors 2 = [0, 1] ∧ g.edgeCount = 4) ∧
      (ofEdges 3 ds [] = .error (.badEdge 1 (.loop 1)) ∧ FirstRefused 3 false ds 1 (.loop 1)) ∧
      ofEdges 3 ds [.loops] = .error (.badEdge 2 (.duplicate 0 2)) ∧
        FirstRefused 3 true ds 2 (.duplicate 0 2) := by
  intro es ds
  have hmax : (0 : Int) ≤ 3 ∧ (3 : Int) ≤ maxOrder := by decide
  have hrepeated : ∀ looped, ¬ SimpleEdges 3 looped ds :=
    fun looped h => absurd h.nodup (by decide)
  refine ⟨?_, ?_, ?_⟩
  · have hsimple : SimpleEdges 3 false es := ⟨by decide, by decide, by decide⟩
    obtain ⟨hiff, hok, -⟩ := ofEdges_of_simple_lists 3 es []
    obtain ⟨g, hg⟩ := hiff.mpr ⟨hmax, hsimple⟩
    obtain ⟨-, -, hedges, hsuccessors, hcount⟩ := hok g hg
    exact ⟨g, hg, hedges.trans (by cbv), (hsuccessors 2).trans (by decide), hcount⟩
  · obtain ⟨i, fault, herror, hfirst⟩ :=
      (ofEdges_of_simple_lists 3 ds []).2.2 hmax (hrepeated false)
    have hrun : ofEdges 3 ds [] = .error (.badEdge 1 (.loop 1)) := rfl
    obtain ⟨rfl, rfl⟩ := GraphError.badEdge.inj (Except.error.inj (hrun.symm.trans herror))
    exact ⟨hrun, hfirst⟩
  · obtain ⟨i, fault, herror, hfirst⟩ :=
      (ofEdges_of_simple_lists 3 ds [.loops]).2.2 hmax (hrepeated true)
    have hrun : ofEdges 3 ds [.loops] = .error (.badEdge 2 (.duplicate 0 2)) := rfl
    obtain ⟨rfl, rfl⟩ := GraphError.badEdge.inj (Except.error.inj (hrun.symm.trans herror))
    exact ⟨hrun, hfirst⟩

end Graph

end TopologicalOrder
