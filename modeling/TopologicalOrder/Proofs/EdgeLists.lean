import Mathlib
import TopologicalOrder.Proofs.History
import TopologicalOrder.Proofs.InferredOrder

/-!
# Graphs from lists of edges

A list of edges becomes a graph by adding one edge after the other, so every edge is
judged by the graph of the edges before it. Seen as a whole, a list is accepted exactly if
the number of vertices is allowed, its edges are admissible and none of them is repeated
(`Graph.exists_ofEdges_iff`), and the edges of the graph are then those of the list
(`Graph.mem_successors_of_ofEdges`). Otherwise the build ends at an edge that is refused by
the graph of the edges before it (`Graph.addEdges_eq_error`), for the first thing that is
wrong with it (`Graph.addEdge_eq_error`).

The order that is inferred from a list is above every end of its edges, unless it is too
large for a graph (`lt_orderForAll`). So a list whose ends are not negative is never
refused for an end that is no vertex (`Graph.not_isOutOfRange_of_inferOrder`).
-/

namespace TopologicalOrder

variable {e : Edge} {es : List Edge} {n v : Int}

/-! ## What is wrong with an edge -/

/-- **What is wrong with the edge `e`, which comes after the edges `before`**, in a graph of
`n` vertices. Where more than one thing is wrong, an end that is no vertex comes first, the
source before the target, then a loop that is not allowed, then a repetition. -/
inductive Edge.Refused (e : Edge) (n : Nat) (looped : Bool) (before : List Edge) :
    EdgeFault → Prop
  /-- The source is no vertex. -/
  | source (hsource : ¬ IsVertex n e.source) :
      Refused e n looped before (.outOfRange .source e.source n)
  /-- The target is no vertex. -/
  | target (hsource : IsVertex n e.source) (htarget : ¬ IsVertex n e.target) :
      Refused e n looped before (.outOfRange .target e.target n)
  /-- The edge is a loop, and loops are not allowed. -/
  | loop (hsource : IsVertex n e.source) (hloop : e.source = e.target) (hoff : looped = false) :
      Refused e n looped before (.loop e.source)
  /-- The edge has come before. -/
  | duplicate (hadmissible : e.Admissible n looped) (hmem : e ∈ before) :
      Refused e n looped before (.duplicate e.source e.target)

/-! ## Ends outside a graph -/

/-- An edge is refused because one end of it is no vertex. -/
def EdgeFault.IsOutOfRange : EdgeFault → Prop
  | .outOfRange _ _ _ => True
  | .loop _ => False
  | .duplicate _ _ => False

/-- A graph is not built because something that should be a vertex is none. -/
def GraphError.IsOutOfRange : GraphError → Prop
  | .negativeOrder _ => False
  | .orderTooLarge _ => False
  | .badKey _ _ => True
  | .badSuccessor fault => fault.IsOutOfRange
  | .badEdge _ fault => fault.IsOutOfRange

namespace Graph

variable {g r : Graph} {ps : List Permission} {u : Int}

/-! ## Which lists are accepted -/

/-- **Edges that are accepted one by one are admissible, new and all different.** -/
theorem Adds.fresh (h : Adds es g r) (hg : g.WellFormed) :
    es.Nodup ∧ ∀ e ∈ es, e.Admissible g.order g.looped ∧ e.target ∉ g.successors e.source := by
  induction h with
  | nil => exact ⟨List.nodup_nil, List.forall_mem_nil _⟩
  | @cons e es g q r ha _ ih =>
    obtain ⟨hnodup, hlater⟩ := ih (hg.addEdge ha)
    obtain ⟨hadmissible, hnew, rfl⟩ := addEdge_eq_ok.mp ha
    have hsuccessors := hg.successors_withEdge hadmissible.1 e.target
    -- what comes later is new to the larger graph, so it is neither the edge that was
    -- added nor one that was there before
    refine ⟨List.nodup_cons.mpr ⟨fun hmem => ?_, hnodup⟩,
      List.forall_mem_cons.mpr ⟨⟨hadmissible, hnew⟩, fun d hd => ⟨(hlater d hd).1, ?_⟩⟩⟩
    · refine (hlater e hmem).2 ?_
      rw [hsuccessors, if_pos rfl]
      exact List.mem_concat_self
    · intro hold
      refine (hlater d hd).2 ?_
      rw [hsuccessors]
      split
      · rename_i hsource
        exact List.mem_append_left _ (hsource ▸ hold)
      · exact hold

/-- **A list of edges makes a graph** exactly if the number of vertices is allowed, every
edge is admissible and none is repeated. -/
theorem exists_ofEdges_iff :
    (∃ g, ofEdges n es ps = .ok g) ↔
      (0 ≤ n ∧ n ≤ maxOrder) ∧ (∀ e ∈ es, e.Admissible n.toNat (allowsLoops ps)) ∧
        es.Nodup := by
  constructor
  · rintro ⟨g, h⟩
    obtain ⟨g₀, hstart, hadds⟩ := ofEdges_eq_ok.mp h
    obtain ⟨hnodup, hfresh⟩ := hadds.fresh (wellFormed_of_ofOrder hstart)
    obtain ⟨horder, hlooped⟩ := order_of_ofOrder hstart
    rw [horder, hlooped] at hfresh
    exact ⟨(ofOrder_eq_ok.mp hstart).1, fun e he => (hfresh e he).1, hnodup⟩
  · rintro ⟨hn, hadmissible, hnodup⟩
    have hstart : ofOrder n ps = .ok _ := ofOrder_eq_ok.mpr ⟨hn, rfl⟩
    obtain ⟨horder, hlooped⟩ := order_of_ofOrder hstart
    obtain ⟨g, hadds⟩ := (wellFormed_of_ofOrder hstart).exists_adds (fun e he => by
      rw [horder, hlooped, successors_of_ofOrder hstart]
      exact ⟨hadmissible e he, List.not_mem_nil⟩) hnodup
    exact ⟨g, ofEdges_eq_ok.mpr ⟨_, hstart, hadds⟩⟩

theorem wellFormed_of_ofEdges (h : ofEdges n es ps = .ok g) : g.WellFormed := by
  obtain ⟨g₀, hstart, hadds⟩ := ofEdges_eq_ok.mp h
  exact hadds.wellFormed (wellFormed_of_ofOrder hstart)

theorem order_of_ofEdges (h : ofEdges n es ps = .ok g) : (g.order : Int) = n := by
  obtain ⟨g₀, hstart, hadds⟩ := ofEdges_eq_ok.mp h
  rw [hadds.order_eq.1, (order_of_ofOrder hstart).1]
  exact Int.toNat_of_nonneg (ofOrder_eq_ok.mp hstart).1.1

/-- The edges from `u` in a list lead to the targets that are paired with it. -/
theorem mem_targets : v ∈ (es.filter fun e => e.source = u).map Edge.target ↔ ⟨u, v⟩ ∈ es := by
  rw [List.mem_map]
  constructor
  · rintro ⟨e, he, rfl⟩
    obtain ⟨hmem, hsource⟩ := List.mem_filter.mp he
    obtain rfl := of_decide_eq_true hsource
    exact hmem
  · intro hmem
    exact ⟨⟨u, v⟩, List.mem_filter.mpr ⟨hmem, decide_eq_true rfl⟩, rfl⟩

/-- **The edges of the graph are those of the list.** -/
theorem mem_successors_of_ofEdges (h : ofEdges n es ps = .ok g) :
    v ∈ g.successors u ↔ ⟨u, v⟩ ∈ es := by
  obtain ⟨g₀, hstart, hadds⟩ := ofEdges_eq_ok.mp h
  rw [hadds.successors_eq (wellFormed_of_ofOrder hstart), successors_of_ofOrder hstart,
    List.nil_append, mem_targets]

/-- **The graph is acyclic if the list is.** -/
theorem acyclic_of_ofEdges_iff (h : ofEdges n es ps = .ok g) :
    g.successors.Acyclic g.order ↔
      ∀ v, ¬ Relation.TransGen (fun u w => Edge.mk u w ∈ es) v v := by
  have hedge : g.successors.Edge = fun u w => Edge.mk u w ∈ es := by
    funext u w
    exact propext (mem_successors_of_ofEdges h)
  rw [Successors.acyclic_iff fun u w hw => (wellFormed_of_ofEdges h).isVertex_of_mem hw, hedge]

/-! ## Where a build ends -/

/-- **An edge is refused for what is wrong with it**, as it comes after the edges that the
graph has. -/
theorem addEdge_eq_error {fault : EdgeFault}
    (h : g.addEdge e.source e.target = (.error fault, r)) :
    e.Refused g.order g.looped g.edges fault := by
  unfold addEdge at h
  by_cases hs : IsVertex g.order e.source
  · rw [if_neg (by simpa using isVertex_iff.mpr hs)] at h
    by_cases ht : IsVertex g.order e.target
    · rw [if_neg (by simpa using isVertex_iff.mpr ht)] at h
      split at h
      · rename_i hloop
        cases h
        exact .loop hs hloop.1 hloop.2
      · rename_i hloop
        split at h
        · rename_i hedge
          cases h
          refine .duplicate ⟨hs, ht, ?_⟩ (mem_edges.mpr (hasEdge_iff.mp hedge))
          by_cases hne : e.source = e.target
          · exact Or.inr (by simpa [hne] using hloop)
          · exact Or.inl hne
        · cases h
    · rw [if_pos (by simpa using mt isVertex_iff.mp ht)] at h
      cases h
      exact .target hs ht
  · rw [if_pos (by simpa using mt isVertex_iff.mp hs)] at h
    cases h
    exact .source hs

/-- **A build that fails ends at the first edge that is refused**, by the graph of the edges
before it. -/
theorem addEdges_eq_error {index : Nat} {err : GraphError} (h : addEdges index es g = .error err) :
    ∃ before e after q fault, es = before ++ e :: after ∧ Adds before g q ∧
      q.addEdge e.source e.target = (.error fault, q) ∧
      err = .badEdge (index + before.length) fault := by
  induction es generalizing index g with
  | nil => exact nomatch h
  | cons e es ih =>
    rw [addEdges] at h
    rcases addEdge_cases g e.source e.target with ⟨fault, ha⟩ | ha
    · rw [ha] at h
      exact ⟨[], e, es, g, fault, rfl, .nil g, ha, (Except.error.inj h).symm⟩
    · rw [ha] at h
      obtain ⟨before, d, after, p, fault, rfl, hadds, hrefused, rfl⟩ := ih h
      refine ⟨e :: before, d, after, p, fault, rfl, .cons ha hadds, hrefused, ?_⟩
      rw [List.length_cons, Nat.add_assoc, Nat.add_comm 1]

theorem not_isOutOfRange_of_addEdge {fault : EdgeFault} (h : g.addEdge u v = (.error fault, r))
    (hu : IsVertex g.order u) (hv : IsVertex g.order v) : ¬ fault.IsOutOfRange := by
  cases addEdge_eq_error (e := ⟨u, v⟩) h with
  | source hsource => exact absurd hu hsource
  | target _ htarget => exact absurd hv htarget
  | loop => exact id
  | duplicate => exact id

/-- **With the inferred order no end is out of range**, if none is negative. -/
theorem not_isOutOfRange_of_inferOrder {err : GraphError}
    (h : ofEdges (inferOrder es) es ps = .error err)
    (hes : ∀ e ∈ es, 0 ≤ e.source ∧ 0 ≤ e.target) : ¬ err.IsOutOfRange := by
  have h0 : 0 ≤ inferOrder es := inferOrder_eq es ▸ orderForAll_nonneg _
  unfold ofEdges at h
  by_cases hmax : inferOrder es ≤ maxOrder
  · obtain ⟨g, hstart⟩ : ∃ g, ofOrder (inferOrder es) ps = .ok g :=
      ⟨_, ofOrder_eq_ok.mpr ⟨⟨h0, hmax⟩, rfl⟩⟩
    rw [hstart] at h
    obtain ⟨before, e, after, q, fault, hsplit, hadds, hrefused, rfl⟩ := addEdges_eq_error h
    have he : e ∈ es := hsplit ▸ List.mem_append_right _ List.mem_cons_self
    have horder : (q.order : Int) = inferOrder es := by
      rw [hadds.order_eq.1, (order_of_ofOrder hstart).1, Int.toNat_of_nonneg h0]
    obtain ⟨hsource, htarget⟩ := lt_inferOrder hmax he
    exact not_isOutOfRange_of_addEdge hrefused ⟨(hes e he).1, horder ▸ hsource⟩
      ⟨(hes e he).2, horder ▸ htarget⟩
  · -- there are no vertices at all yet
    unfold ofOrder at h
    rw [if_neg (not_lt.mpr h0), if_pos (not_le.mp hmax)] at h
    obtain rfl := Except.error.inj h
    exact id

end Graph

end TopologicalOrder
