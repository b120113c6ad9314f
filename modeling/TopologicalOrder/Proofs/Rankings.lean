import Mathlib
import TopologicalOrder.Proofs.Detection
import TopologicalOrder.Proofs.Representation
import TopologicalOrder.Proofs.Verdict

/-!
# Rankings, and graphs whose edges lead up a ranking

A ranking lists the vertices, each of them once. So does the one that a generator draws
(`Graph.perm_ranking`), and this is all that is known of it.

`pairs` lists the pairs of a ranking, a vertex with each one that is ranked after it. A pair
of it is the same as a part of two of the ranking (`mem_pairs`), and so a graph whose edges
are such pairs leads up the ranking (`Graph.LeadsUp`). Then it has no cycle, the ranking is a
topological order, and a search for cycles succeeds. If every pair is an edge, nothing else is
a topological order: the places of any two vertices are determined
(`Graph.LeadsUp.eq_of_verify`), and so the ranking is what a sort returns
(`Graph.LeadsUp.topologicalSort_eq`).
-/

namespace TopologicalOrder

/-- **A ranking lists every vertex once**, with a generator or without. -/
theorem Graph.perm_ranking {γ : Type} (gen : Option (Random.Generator γ)) (n : Nat) (s : γ) :
    (ranking gen n s).1.Perm (vertices n) := by
  cases gen with
  | none => exact List.Perm.refl _
  | some gen => exact (gen.perm_range n s).map Int.ofNat

/-! ## The pairs of a ranking -/

section Pairs

variable {α β : Type} {a b : α} {l : List α}

/-- **The pairs of an element with each later one**, in the order of the first, then of the
second. -/
def pairs : List α → List (α × α)
  | [] => []
  | a :: l => l.map (Prod.mk a) ++ pairs l

/-- **A pair is a part of two.** -/
theorem mem_pairs : (a, b) ∈ pairs l ↔ [a, b].Sublist l := by
  induction l with
  | nil => simp [pairs]
  | cons c l ih =>
    rw [pairs, List.mem_append, ih, List.sublist_cons_iff]
    simp [or_comm, eq_comm, and_comm]

theorem pairs_map (f : α → β) (l : List α) : pairs (l.map f) = (pairs l).map (Prod.map f f) := by
  induction l with
  | nil => rfl
  | cons a l ih => simp [pairs, ih, Function.comp_def]

theorem length_pairs (l : List α) : (pairs l).length = l.length * (l.length - 1) / 2 := by
  rw [← Nat.choose_two_right]
  induction l with
  | nil => rfl
  | cons a l ih =>
    rw [pairs, List.length_append, List.length_map, ih, List.length_cons, Nat.choose_succ_succ,
      Nat.choose_one_right]

theorem nodup_pairs (h : l.Nodup) : (pairs l).Nodup := by
  induction h with
  | nil => exact List.nodup_nil
  | @cons a l hfirst hrest ih =>
    refine List.nodup_append.mpr ⟨?_, ih, ?_⟩
    · exact List.Nodup.map (Prod.mk_right_injective a) hrest
    · rintro q hq ⟨b, c⟩ hr rfl
      obtain ⟨d, -, hd⟩ := List.mem_map.mp hq
      obtain ⟨rfl, -⟩ := Prod.mk.inj hd
      exact hfirst a ((mem_pairs.mp hr).subset List.mem_cons_self) rfl

/-- **The second elements of the pairs of one element stand in their order.** -/
theorem sublist_of_filter_pairs [DecidableEq α] (h : l.Nodup) (a : α) :
    (((pairs l).filter fun q => q.1 = a).map Prod.snd).Sublist l := by
  induction h with
  | nil => exact List.Sublist.refl []
  | @cons b l hfirst _ ih =>
    rw [pairs, List.filter_append, List.map_append]
    by_cases hb : b = a
    · -- what comes after has no pair with the first element
      have hnone : (pairs l).filter (fun q => q.1 = a) = [] := by
        refine List.filter_eq_nil_iff.mpr fun q hq heq => ?_
        have hmem : q.1 ∈ l := (mem_pairs.mp hq).subset List.mem_cons_self
        exact hfirst q.1 hmem (hb.trans (of_decide_eq_true heq).symm)
      have hall : (l.map (Prod.mk b)).filter (fun q => q.1 = a) = l.map (Prod.mk b) :=
        List.filter_eq_self.mpr (by simp [hb])
      rw [hnone, hall, List.map_map, List.map_nil, List.append_nil]
      exact (List.map_id l).symm ▸ List.sublist_cons_self b l
    · have hnone : (l.map (Prod.mk b)).filter (fun q => q.1 = a) = [] :=
        List.filter_eq_nil_iff.mpr (by simp [hb])
      rw [hnone, List.map_nil, List.nil_append]
      exact ih.trans (List.sublist_cons_self b l)

end Pairs

/-! ## Graphs that lead up a ranking -/

namespace Graph

/-- **A graph whose edges lead up a ranking** of its vertices. -/
structure LeadsUp (g : Graph) (ranks : List Int) : Prop where
  /-- The graph is well-formed. -/
  wellFormed : g.WellFormed
  /-- The ranking lists every vertex once. -/
  perm : ranks.Perm (vertices g.order)
  /-- The target of an edge is ranked after its source. -/
  up : ∀ u v, v ∈ g.successors u → [u, v].Sublist ranks

namespace LeadsUp

variable {g : Graph} {ranks : List Int} {σ : Type}

theorem nodup (h : g.LeadsUp ranks) : ranks.Nodup := h.perm.nodup_iff.mpr (nodup_vertices _)

/-- **The ranking is a topological order.** -/
theorem verify_eq_ok (h : g.LeadsUp ranks) :
    verify (some g.successors) g.order ranks.toArray = .ok () :=
  (verify_eq_ok_of_perm h.perm).mpr fun u _ v hv =>
    ⟨(h.wellFormed.isVertex_of_mem hv).2, precedes_of_sublist h.nodup (h.up u v hv)⟩

/-- **No edge leads down, so there is no cycle.** -/
theorem acyclic (h : g.LeadsUp ranks) : g.successors.Acyclic g.order := by
  -- an edge brings its end closer to the end of the ranking
  refine Successors.acyclic_of_rank (fun v => ranks.length - ranks.idxOf v) ?_
  rintro u v ⟨-, -, hv⟩
  have hlt := idxOf_lt_of_sublist h.nodup (h.up u v hv)
  have hend := List.idxOf_lt_length_of_mem
    ((h.up u v hv).subset (List.mem_cons_of_mem u List.mem_cons_self))
  omega

theorem exists_order (h : g.LeadsUp ranks) (st : Strategy) (detect : Bool) (c : σ) :
    ∃ order, (topologicalSort (some g.successors) g.order
      { strategy := st, detectCycles := detect } c).1 = .ok order :=
  (exists_order_iff h.wellFormed.closed).mpr fun _ => h.acyclic

section Complete

variable (h : g.LeadsUp ranks) (hall : ∀ u v, [u, v].Sublist ranks → v ∈ g.successors u)
include h hall

/-- **If every pair is an edge, the ranking is the only topological order.** -/
theorem eq_of_verify {order : Array Int}
    (hverify : verify (some g.successors) g.order order = .ok ()) : order = ranks.toArray := by
  have hperm : order.toList.Perm (vertices g.order) := by
    by_contra hnot
    obtain ⟨e, he, -⟩ := verify_of_not_perm g.successors hnot
    cases he.symm.trans hverify
  have hedges := (verify_eq_ok_of_perm hperm).mp hverify
  have hnodup : order.toList.Nodup := hperm.nodup_iff.mpr (nodup_vertices _)
  -- both lists are sorted by the places that the order gives to the vertices
  have horder : order.toList.Pairwise fun u v =>
      order.toList.idxOf u < order.toList.idxOf v :=
    List.pairwise_iff_forall_sublist.mpr (idxOf_lt_of_sublist hnodup)
  have hranks : ranks.Pairwise fun u v => order.toList.idxOf u < order.toList.idxOf v := by
    refine List.pairwise_iff_forall_sublist.mpr fun {u v} hsub => ?_
    obtain ⟨hu, hv⟩ := h.wellFormed.isVertex_of_mem (hall u v hsub)
    have hmem : ∀ w, IsVertex g.order w → w ∈ order.toList := fun w hw =>
      hperm.mem_iff.mpr (mem_vertices.mpr hw)
    exact (precedes_iff (hmem u hu) (hmem v hv)).mp (hedges u hu v (hall u v hsub)).2
  have heq : order.toList = ranks :=
    List.Perm.eq_of_pairwise (fun u v _ _ huv hvu => absurd huv (Nat.lt_asymm hvu)) horder hranks
      (hperm.trans h.perm.symm)
  exact heq ▸ rfl

/-- **If every pair is an edge, a sort returns the ranking.** -/
theorem topologicalSort_eq (st : Strategy) (detect : Bool) (c : σ) :
    (topologicalSort (some g.successors) g.order
      { strategy := st, detectCycles := detect } c).1 = .ok ranks.toArray := by
  obtain ⟨order, horder⟩ := h.exists_order st detect c
  obtain ⟨xs, hlist, rfl⟩ := finishOrder_of_topologicalSort horder
  rw [horder, h.eq_of_verify hall (hlist.verify_reverse_eq_ok.mpr h.acyclic)]

end Complete

end LeadsUp

end Graph

end TopologicalOrder
