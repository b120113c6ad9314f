import Mathlib
import TopologicalOrder.Proofs.RandomGraphs
import TopologicalOrder.Proofs.Widening

/-!
# Chains and cycles

A chain leads from each vertex to the next one, and a cycle is a chain whose last vertex leads
back to the first. Both are built without a refusal, whatever their size: the sources of their
edges are all different, and the edge that closes a cycle is a loop only if there is one vertex,
where loops are allowed.

To a search the two look alike until it comes to the last vertex (`Successors.LeadsOn`). It
starts at `0`, and each vertex it discovers has one successor, which is white. So it goes down to
the last vertex before it finishes any, and has then all vertices on its stack
(`Machine.Descended`, `Machine.exists_descended`). What happens next is decided by what the last
vertex lists. If it lists nothing, or if the search does not look for cycles, the frames are left
one after the other, the last vertex first. If the search looks for cycles, the first thing that
the last vertex lists is on the stack, and the search fails there.
-/

namespace TopologicalOrder

variable {σ : Type}

/-! ## The vertices in ascending order -/

theorem vertices_succ (n : Nat) : vertices (n + 1) = vertices n ++ [(n : Int)] := by
  rw [vertices, List.range_succ, List.map_append]
  rfl

theorem isVertex_natCast {n i : Nat} (hi : i < n) : IsVertex n (i : Int) :=
  ⟨Int.natCast_nonneg i, Int.ofNat_lt.mpr hi⟩

theorem exists_vertices_eq_cons (n : Nat) : ∃ vs, vertices (n + 1) = 0 :: vs := by
  rw [vertices, List.range_succ_eq_map]
  exact ⟨_, rfl⟩

theorem idxOf_vertices {n : Nat} {v : Int} (hv : IsVertex n v) :
    (vertices n).idxOf v = v.toNat := by
  have hlt : v.toNat < (vertices n).length := by
    have h0 := hv.1
    have hn := hv.2
    rw [length_vertices]
    omega
  have hget : (vertices n)[v.toNat] = v := by
    simp only [vertices, List.getElem_map, List.getElem_range]
    exact Int.toNat_of_nonneg hv.1
  conv_lhs => rw [← hget]
  exact (nodup_vertices n).idxOf_getElem _ hlt

/-- In the ascending order of the vertices the smaller one stands first. -/
theorem precedes_vertices {n : Nat} {u v : Int} (hu : IsVertex n u) (hv : IsVertex n v) :
    Precedes (vertices n).toArray u v ↔ u < v := by
  have hmem : ∀ w, IsVertex n w → w ∈ (vertices n).toArray.toList := fun w hw =>
    mem_vertices.mpr hw
  rw [precedes_iff (hmem u hu) (hmem v hv), idxOf_vertices hu, idxOf_vertices hv]
  have hu0 := hu.1
  have hv0 := hv.1
  omega

/-! ## Going down to the last vertex -/

/-- **A graph that leads from each of the vertices `0 … k - 1` to the next one**, and nowhere
else. Nothing is said of `k` itself. -/
def Successors.LeadsOn (g : Successors) (k : Nat) : Prop :=
  ∀ i : Nat, i < k → g i = [(i : Int) + 1]

namespace Machine

variable {t : Task σ} {n k i : Nat} {fs : List Frame} {s r : Search σ}

/-- **The search has gone down to `i`**, whose frame is on top of the frames `fs`, and has
finished nothing. -/
structure Descended (t : Task σ) (n i : Nat) (fs : List Frame) (s : Search σ) : Prop where
  /-- The frames below are those of the vertices before `i`. -/
  path_eq : fs.map Frame.vertex = (vertices i).reverse
  /-- They have examined all their successors. -/
  remaining_eq : ∀ f ∈ fs, f.remaining = []
  /-- There is a colour for each vertex. -/
  order_eq : s.order = n
  /-- The vertices up to `i` are gray, and those after it white. -/
  color_eq : ∀ v, IsVertex n v → s.color v = if v ≤ i then .gray else .white
  /-- Nothing is finished. -/
  finished_eq : s.finished = #[]

theorem Descended.start {us : List Int} {c : σ} (hn : 0 < n)
    (hd : Search.discover t 0 (Search.start n c) = (.ok us, r)) : Descended t n 0 [] r where
  path_eq := rfl
  remaining_eq _ hf := absurd hf List.not_mem_nil
  order_eq := (Search.order_of_discover hd).trans (Search.order_start n c)
  color_eq v hv := by
    have h0 := hv.1
    have hzero : IsVertex n 0 := isVertex_natCast hn
    rw [Search.color_of_discover (Search.order_start n c) hzero hd hv, Search.color_start]
    refine if_congr ?_ rfl rfl
    exact ⟨fun h => h.le, fun h => le_antisymm h h0⟩
  finished_eq := Search.finished_of_discover hd

/-- **The search goes on to the next vertex**, which is white and the only successor. -/
theorem Descended.next (h : Descended t n i fs s) (ht : t.options.Unhindered) (hi : i + 1 < n)
    (hnext : t.successors i = [(i : Int) + 1]) :
    ∃ fs' s', Move t ⟨Frame.enter i (t.successors i) :: fs, s⟩
        ⟨Frame.enter (i + 1 : Nat) (t.successors (i + 1 : Nat)) :: fs', s'⟩ ∧
      Descended t n (i + 1) fs' s' := by
  have hvertex : IsVertex n ((i + 1 : Nat) : Int) := isVertex_natCast hi
  have hwhite : s.color ((i + 1 : Nat) : Int) = .white := by
    rw [h.color_eq _ hvertex, if_neg (by omega)]
  obtain ⟨r, hd⟩ := Search.exists_discover ht ((i + 1 : Nat) : Int) s
  refine ⟨(Frame.enter i (t.successors i)).advance :: fs, r, ?_, ?_, ?_, ?_, fun v hv => ?_, ?_⟩
  · refine Move.descend ?_ (Search.examine_eq_descend.mpr ⟨h.order_eq ▸ hvertex, hwhite⟩) hd
    rw [hnext]
    rfl
  · rw [vertices_succ, List.reverse_append, List.map_cons, h.path_eq]
    rfl
  · refine List.forall_mem_cons.mpr ⟨?_, h.remaining_eq⟩
    rw [hnext]
    rfl
  · exact (Search.order_of_discover hd).trans h.order_eq
  · rw [Search.color_of_discover h.order_eq hvertex hd hv, h.color_eq v hv]
    by_cases hv' : v = ((i + 1 : Nat) : Int)
    · rw [if_pos hv', if_pos hv'.le]
    · rw [if_neg hv']
      exact if_congr (by omega) rfl rfl
  · exact (Search.finished_of_discover hd).trans h.finished_eq

/-- **The search goes down as far as the graph leads on.** -/
theorem exists_descended {c : σ} (ht : t.options.Unhindered) (hg : t.successors.LeadsOn k)
    (hd : Search.discover t 0 (Search.start (k + 1) c) = (.ok (t.successors 0), r))
    (hi : i ≤ k) :
    ∃ fs s, Moves t ⟨[Frame.enter 0 (t.successors 0)], r⟩
        ⟨Frame.enter i (t.successors i) :: fs, s⟩ ∧ Descended t (k + 1) i fs s := by
  induction i with
  | zero => exact ⟨[], r, Relation.ReflTransGen.refl, .start (Nat.succ_pos k) hd⟩
  | succ i ih =>
    obtain ⟨fs, s, hmoves, h⟩ := ih (Nat.le_of_succ_le hi)
    obtain ⟨fs', s', hmove, h'⟩ := h.next ht (Nat.succ_lt_succ hi) (hg i hi)
    exact ⟨fs', s', hmoves.tail hmove, h'⟩

/-! ## Coming back -/

/-- **Frames that have nothing left to examine are left one after the other**, if the client does
not stop the search. -/
theorem exists_resume (ht : t.options.Unhindered) (hrest : ∀ f ∈ fs, f.remaining = [])
    (hfs : ∀ f ∈ fs, IsVertex s.order f.vertex) :
    ∃ r, resume t fs s = (.ok (), r) ∧ Search.Progress s r ∧
      r.finished.toList = s.finished.toList ++ fs.map Frame.vertex := by
  induction fs generalizing s with
  | nil => exact ⟨s, rfl, .refl s, (List.append_nil _).symm⟩
  | cons f fs ih =>
    obtain ⟨hf, hrest⟩ := List.forall_mem_cons.mp hrest
    obtain ⟨hv, hfs⟩ := List.forall_mem_cons.mp hfs
    obtain ⟨q, hfinish⟩ := Search.exists_finish ht f.vertex s
    have hfirst : Search.Progress s q := .of_finish hv hfinish
    obtain ⟨r, hresume, hlater, hfinished⟩ := ih hrest fun d hd => hfirst.order_eq ▸ hfs d hd
    refine ⟨r, ?_, hfirst.trans hlater, ?_⟩
    · rw [resume, hf, Search.explore_nil, hfinish]
      exact hresume
    · rw [hfinished, Search.finished_of_finish hfinish, List.append_assoc]
      rfl

end Machine

namespace Search

variable {t : Task σ} {k : Nat} {s r : Search σ} {v : Int} {us vs : List Int}

/-- A vertex all of whose successors are passed by is finished. -/
theorem explore_of_forall_pass (h : ∀ u ∈ us, examine t v u s = .ok false) :
    (explore t v us s).val = finish t v s := by
  induction us with
  | nil => exact explore_nil t v s
  | cons u us ih =>
    obtain ⟨hu, hus⟩ := List.forall_mem_cons.mp h
    rw [explore_pass hu, ih hus]

/-- Roots that have been discovered are skipped. -/
theorem sweep_of_forall_ne_white (h : ∀ v ∈ vs, s.color v ≠ .white) :
    sweep t vs s = (.ok (), s) := by
  induction vs with
  | nil => rfl
  | cons v vs ih =>
    obtain ⟨hv, hvs⟩ := List.forall_mem_cons.mp h
    rw [sweep_of_ne_white hv, ih hvs]

/-- **The first visit comes to what happens at the last vertex**, with all other vertices on the
stack below it. -/
theorem exists_enter_eq_resume (ht : t.options.Unhindered) (hg : t.successors.LeadsOn k) (c : σ) :
    ∃ fs s, Machine.Descended t (k + 1) k fs s ∧
      enter t 0 (start (k + 1) c) =
        Machine.resume t (Frame.enter k (t.successors k) :: fs) s := by
  obtain ⟨r, hd⟩ := exists_discover ht 0 (start (k + 1) c)
  obtain ⟨fs, s, hmoves, h⟩ := Machine.exists_descended ht hg hd (le_refl k)
  refine ⟨fs, s, h, ?_⟩
  rw [enter_eq_walk, walk, hd]
  dsimp only
  rw [Machine.run_eq_resume, hmoves.resume_eq]

end Search

/-! ## The whole search -/

section

variable {g : Successors} {k : Nat} {o : Options σ} {r : Search σ}

/-- **If the first visit discovers all vertices, it is the whole search.** -/
theorem finishOrder_of_enter {c : σ}
    (h : Search.enter ⟨g, o⟩ 0 (Search.start (k + 1) c) = (.ok (), r))
    (hall : ∀ v, IsVertex (k + 1) v → r.color v ≠ .white) :
    finishOrder (some g) (k + 1 : Nat) o c = (.ok r.finished, r.client) := by
  obtain ⟨vs, hvs⟩ := exists_vertices_eq_cons k
  have hrest : Search.sweep ⟨g, o⟩ vs r = (.ok (), r) :=
    Search.sweep_of_forall_ne_white fun v hv =>
      hall v (mem_vertices.mp (hvs ▸ List.mem_cons_of_mem 0 hv))
  rw [finishOrder, if_neg (Int.not_lt.mpr (Int.natCast_nonneg _)), Int.toNat_natCast, hvs,
    Search.sweep, Search.color_start, h]
  dsimp only
  rw [hrest]

/-- **If the first visit fails, so does the search.** -/
theorem finishOrder_of_enter_error {c : σ} {e : SortError}
    (h : Search.enter ⟨g, o⟩ 0 (Search.start (k + 1) c) = (.error e, r)) :
    finishOrder (some g) (k + 1 : Nat) o c = (.error e, r.client) := by
  obtain ⟨vs, hvs⟩ := exists_vertices_eq_cons k
  rw [finishOrder, if_neg (Int.not_lt.mpr (Int.natCast_nonneg _)), Int.toNat_natCast, hvs,
    Search.sweep, Search.color_start, h]

namespace Successors.LeadsOn

variable (hg : g.LeadsOn k) (ho : o.Unhindered) (c : σ)
include hg ho

/-- **A search that need not look back sorts the vertices as they stand**: the last vertex lists
nothing, or the search does not look for cycles. -/
theorem topologicalSort_eq (hlast : ∀ u ∈ g k, IsVertex (k + 1) u ∧ o.detectCycles = false) :
    (topologicalSort (some g) (k + 1 : Nat) o c).1 = .ok (vertices (k + 1)).toArray := by
  obtain ⟨fs, s, h, henter⟩ := Search.exists_enter_eq_resume (t := ⟨g, o⟩) ho hg c
  have hgray : ∀ v, IsVertex (k + 1) v → s.color v = .gray := fun v hv => by
    have hn := hv.2
    rw [h.color_eq v hv, if_pos (by omega)]
  -- all that the last vertex lists is on the stack
  have hpass : ∀ u ∈ g k, Search.examine ⟨g, o⟩ k u s = .ok false := fun u hu =>
    Search.examine_eq_pass.mpr ⟨h.order_eq ▸ (hlast u hu).1,
      Or.inr ⟨hgray u (hlast u hu).1, (hlast u hu).2⟩⟩
  have hk : IsVertex s.order (k : Int) := by
    rw [h.order_eq]
    exact isVertex_natCast (Nat.lt_succ_self k)
  obtain ⟨q, hfinish⟩ := Search.exists_finish (t := ⟨g, o⟩) ho k s
  have hfirst : Search.Progress s q := .of_finish hk hfinish
  have hfs : ∀ f ∈ fs, IsVertex q.order f.vertex := fun f hf => by
    have hmem : f.vertex ∈ (vertices k).reverse := h.path_eq ▸ List.mem_map_of_mem hf
    obtain ⟨h0, hlt⟩ := mem_vertices.mp (List.mem_reverse.mp hmem)
    rw [hfirst.order_eq, h.order_eq]
    exact ⟨h0, by omega⟩
  obtain ⟨r, hresume, hlater, hfinished⟩ :=
    Machine.exists_resume (t := ⟨g, o⟩) ho h.remaining_eq hfs
  have hroot : Search.enter ⟨g, o⟩ 0 (Search.start (k + 1) c) = (.ok (), r) := by
    rw [henter, Machine.resume, Frame.vertex_enter, Frame.remaining_enter,
      Search.explore_of_forall_pass hpass, hfinish]
    exact hresume
  have hall : ∀ v, IsVertex (k + 1) v → r.color v ≠ .white := fun v hv =>
    (hfirst.trans hlater).ne_white v (h.order_eq ▸ hv) (by rw [hgray v hv]; decide)
  have horder : r.finished.toList = (vertices (k + 1)).reverse := by
    rw [hfinished, Search.finished_of_finish hfinish, h.finished_eq, h.path_eq, vertices_succ,
      List.reverse_append]
    rfl
  rw [fst_topologicalSort, finishOrder_of_enter hroot hall]
  refine congrArg Except.ok (Array.toList_inj.mp ?_)
  rw [toList_reverse, horder, List.reverse_reverse]

/-- **A search for cycles fails at the first thing that the last vertex lists.** -/
theorem topologicalSort_eq_cycle {u : Int} {us : List Int} (hlast : g k = u :: us)
    (hu : IsVertex (k + 1) u) (hon : o.detectCycles = true) :
    (topologicalSort (some g) (k + 1 : Nat) o c).1 = .error (.cycle k u) := by
  obtain ⟨fs, s, h, henter⟩ := Search.exists_enter_eq_resume (t := ⟨g, o⟩) ho hg c
  have hgray : s.color u = .gray := by
    have hn := hu.2
    rw [h.color_eq u hu, if_pos (by omega)]
  have hrefuse : Search.examine ⟨g, o⟩ k u s = .error (.cycle k u) :=
    Search.examine_eq_error.mpr (Or.inr ⟨h.order_eq ▸ hu, hgray, hon, rfl⟩)
  have hroot : Search.enter ⟨g, o⟩ 0 (Search.start (k + 1) c) = (.error (.cycle k u), s) := by
    rw [henter, Machine.resume, Frame.vertex_enter, Frame.remaining_enter,
      show (⟨g, o⟩ : Task σ).successors k = u :: us from hlast, Search.explore_refuse hrefuse]
  rw [fst_topologicalSort, finishOrder_of_enter_error hroot]
  rfl

end Successors.LeadsOn

end

/-! ## Building chains and cycles -/

/-- **Edges with a source of their own each** lead to one target from each source. -/
theorem targets_map_vertices (next : Int → Int) (m : Nat) (u : Int) :
    (((vertices m).map fun i => Edge.mk i (next i)).filter fun e => e.source = u).map Edge.target =
      if IsVertex m u then [next u] else [] := by
  have hfilter : (vertices m).filter (fun i => i = u) = if IsVertex m u then [u] else [] := by
    rw [List.filter_eq, (nodup_vertices m).count]
    simp only [mem_vertices]
    split <;> rfl
  rw [List.filter_map, List.map_map]
  show ((vertices m).filter fun i => i = u).map next = _
  rw [hfilter]
  split <;> rfl

namespace Graph

variable {n k : Nat} {es : List Edge} {g g₀ : Graph} {ps : List Permission}

/-- **A family whose edges may stand in a graph is built without a refusal.** -/
theorem exists_family {f : Family} (ps : List Permission) (hmin : f.minOrder ≤ n)
    (hmax : n ≤ maxOrder) (hes : SimpleEdges n (allowsLoops ps) es) :
    ∃ g₀ g, ofOrder n ps = .ok g₀ ∧ Adds es g₀ g ∧ f.start n ps = .ok g₀ ∧
      f.addEdges es g₀ = .ok g := by
  obtain ⟨g₀, hstart⟩ : ∃ g₀, ofOrder n ps = .ok g₀ :=
    ⟨_, ofOrder_eq_ok.mpr ⟨⟨Int.natCast_nonneg n, Int.ofNat_le.mpr hmax⟩, rfl⟩⟩
  obtain ⟨horder, hlooped⟩ := order_of_ofOrder hstart
  obtain ⟨hadmissible, hnodup⟩ := simpleEdges_iff.mp hes
  obtain ⟨g, hadds⟩ := (wellFormed_of_ofOrder hstart).exists_adds (fun e he => by
    rw [horder, hlooped, successors_of_ofOrder hstart]
    exact ⟨hadmissible e he, List.not_mem_nil⟩) hnodup
  exact ⟨g₀, g, hstart, hadds, start_of_ofOrder hmin hstart, familyAddEdges_eq_ok.mpr hadds⟩

/-- **A graph with one edge from each of its first vertices**: it lists them as they were added,
and each source has the one successor. -/
theorem edges_of_single {m : Nat} {next : Int → Int} (hstart : ofOrder n ps = .ok g₀)
    (hadds : Adds ((vertices m).map fun i => Edge.mk i (next i)) g₀ g) :
    g.order = n ∧ g.edges = ((vertices m).map fun i => Edge.mk i (next i)) ∧
      ∀ u, g.successors u = if IsVertex m u then [next u] else [] := by
  refine ⟨hadds.order_eq.1.trans (order_of_ofOrder hstart).1, ?_, fun u => ?_⟩
  · rw [edges_of_adds hstart hadds]
    refine List.mergeSort_of_pairwise (List.pairwise_map.mpr ?_)
    exact (pairwise_lt_vertices m).imp fun h => decide_eq_true h.le
  · rw [successors_of_adds hstart hadds, targets_map_vertices]

theorem nodup_map_vertices (next : Int → Int) (m : Nat) :
    ((vertices m).map fun i => Edge.mk i (next i)).Nodup :=
  (nodup_vertices m).map fun _ _ h => (Edge.mk.inj h).1

theorem simpleEdges_chainEdges (k : Nat) : SimpleEdges (k + 1) false (chainEdges (k + 1)) := by
  have hends : ∀ e ∈ chainEdges (k + 1), IsVertex k e.source ∧ e.target = e.source + 1 := by
    intro e he
    obtain ⟨i, hi, rfl⟩ := List.mem_map.mp he
    exact ⟨mem_vertices.mp hi, rfl⟩
  refine ⟨fun e he => ?_, nodup_map_vertices (· + 1) k, fun _ e he => ?_⟩
  · obtain ⟨⟨h0, hlt⟩, htarget⟩ := hends e he
    exact ⟨⟨h0, by omega⟩, by omega, by omega⟩
  · have htarget := (hends e he).2
    omega

theorem simpleEdges_cycleEdges (k : Nat) : SimpleEdges (k + 1) true (cycleEdges (k + 1)) := by
  refine ⟨fun e he => ?_, nodup_map_vertices _ (k + 1), fun h => nomatch h⟩
  obtain ⟨i, hi, rfl⟩ := List.mem_map.mp he
  have hpos : (0 : Int) < ((k + 1 : Nat) : Int) := Int.ofNat_lt.mpr (Nat.succ_pos k)
  exact ⟨mem_vertices.mp hi, Int.emod_nonneg _ hpos.ne', Int.emod_lt_of_pos _ hpos⟩

/-- The number that follows a vertex does not wrap around, unless the vertex is the last. -/
theorem next_of_isVertex {i : Int} (hi : IsVertex k i) :
    (i + 1) % ((k + 1 : Nat) : Int) = i + 1 := by
  obtain ⟨h0, hlt⟩ := hi
  exact Int.emod_eq_of_lt (by omega) (by omega)

theorem next_last (k : Nat) : ((k : Int) + 1) % ((k + 1 : Nat) : Int) = 0 :=
  Int.emod_self

/-- **A cycle is a chain with one more edge**, which comes last. -/
theorem cycleEdges_succ (k : Nat) : cycleEdges (k + 1) = chainEdges (k + 1) ++ [⟨k, 0⟩] := by
  unfold cycleEdges chainEdges
  rw [vertices_succ, List.map_append]
  refine congrArg₂ _ (List.map_congr_left fun i hi => ?_) ?_
  · rw [next_of_isVertex (mem_vertices.mp hi)]
  · rw [List.map_singleton, next_last]

/-- **Every chain is built**, and lists its edges as they were added. -/
theorem exists_chain (hmax : k + 1 ≤ maxOrder) :
    ∃ g₀ g, (ofOrder (k + 1 : Nat) [] = .ok g₀ ∧ Adds (chainEdges (k + 1)) g₀ g ∧
        chain (k + 1 : Nat) = .ok g) ∧
      g.order = k + 1 ∧ g.edges = chainEdges (k + 1) ∧
      ∀ u, g.successors u = if IsVertex k u then [u + 1] else [] := by
  have hmin : Family.chain.minOrder ≤ ((k + 1 : Nat) : Int) := Int.ofNat_le.mpr (Nat.succ_pos k)
  obtain ⟨g₀, g, hstart, hadds, hfamily, hbuilt⟩ :=
    exists_family [] hmin hmax (simpleEdges_chainEdges k)
  refine ⟨g₀, g, ⟨hstart, hadds, ?_⟩, edges_of_single hstart hadds⟩
  rw [chain, hfamily]
  exact hbuilt

/-- **Every cycle is built**, and lists its edges as they were added. -/
theorem exists_cycle (hmax : k + 1 ≤ maxOrder) :
    ∃ g₀ g, (ofOrder (k + 1 : Nat) [.loops] = .ok g₀ ∧ Adds (cycleEdges (k + 1)) g₀ g ∧
        cycle (k + 1 : Nat) = .ok g) ∧
      g.order = k + 1 ∧ g.edges = cycleEdges (k + 1) ∧
      ∀ u, g.successors u =
        if IsVertex (k + 1) u then [(u + 1) % ((k + 1 : Nat) : Int)] else [] := by
  have hmin : Family.cycle.minOrder ≤ ((k + 1 : Nat) : Int) := Int.ofNat_le.mpr (Nat.succ_pos k)
  obtain ⟨g₀, g, hstart, hadds, hfamily, hbuilt⟩ :=
    exists_family [.loops] hmin hmax (simpleEdges_cycleEdges k)
  refine ⟨g₀, g, ⟨hstart, hadds, ?_⟩, edges_of_single hstart hadds⟩
  rw [cycle, hfamily]
  exact hbuilt

/-! ## Checking the ascending order -/

theorem not_atFault_of_mem_chainEdges {e : Edge} (he : e ∈ chainEdges (k + 1)) :
    ¬ e.AtFault (k + 1) (vertices (k + 1)).toArray := by
  obtain ⟨hsource, htarget⟩ := (simpleEdges_chainEdges k).isVertex e he
  refine not_not_intro ⟨htarget, (precedes_vertices hsource htarget).mpr ?_⟩
  obtain ⟨i, -, rfl⟩ := List.mem_map.mp he
  exact lt_add_one i

/-- **If the edges of a graph are those of a chain and then others**, the first that the ascending
order does not bear out is one of the others. -/
theorem find?_atFault {ds : List Edge} (horder : g.order = k + 1)
    (hedges : g.edges = chainEdges (k + 1) ++ ds) :
    (edgesFrom g.successors (vertices (k + 1))).find?
        (fun d => d.AtFault (k + 1) (vertices (k + 1)).toArray) =
      ds.find? fun d => d.AtFault (k + 1) (vertices (k + 1)).toArray := by
  have hnone : (chainEdges (k + 1)).find?
      (fun d => decide (d.AtFault (k + 1) (vertices (k + 1)).toArray)) = none :=
    List.find?_eq_none.mpr fun d hd => by simpa using not_atFault_of_mem_chainEdges hd
  have hfrom : edgesFrom g.successors (vertices (k + 1)) = chainEdges (k + 1) ++ ds := by
    rw [← hedges, ← horder]
    rfl
  rw [hfrom, List.find?_append, hnone, Option.none_or]

theorem verify_chain (horder : g.order = k + 1) (hedges : g.edges = chainEdges (k + 1)) :
    verify (some g.successors) (k + 1 : Nat) (vertices (k + 1)).toArray = .ok () := by
  have hperm : (vertices (k + 1)).toArray.toList.Perm (vertices (k + 1)) := .refl _
  rw [← List.append_nil (chainEdges (k + 1))] at hedges
  rw [verify_of_perm g.successors hperm, find?_atFault horder hedges]
  rfl

/-- The edge that closes a cycle leads down, or is a loop. -/
theorem verify_cycle (horder : g.order = k + 1)
    (hedges : g.edges = chainEdges (k + 1) ++ [⟨k, 0⟩]) :
    verify (some g.successors) (k + 1 : Nat) (vertices (k + 1)).toArray =
      .error (.violated k 0) := by
  have hperm : (vertices (k + 1)).toArray.toList.Perm (vertices (k + 1)) := .refl _
  have hfirst : IsVertex (k + 1) 0 := isVertex_natCast (Nat.succ_pos k)
  have hlast : IsVertex (k + 1) (k : Int) := isVertex_natCast (Nat.lt_succ_self k)
  have hfault : Edge.AtFault (k + 1) (vertices (k + 1)).toArray ⟨k, 0⟩ := fun h =>
    absurd ((precedes_vertices hlast hfirst).mp h.2) (Int.not_lt.mpr (Int.natCast_nonneg k))
  have hfind : [Edge.mk k 0].find? (fun d => d.AtFault (k + 1) (vertices (k + 1)).toArray) =
      some ⟨k, 0⟩ :=
    List.find?_cons_of_pos (decide_eq_true hfault)
  rw [verify_of_perm g.successors hperm, find?_atFault horder hedges, hfind]
  exact congrArg Except.error (if_pos hfirst)

/-! ## The result -/

/-- **Chains and cycles of every size.** For each admitted number of vertices but zero, both are
built from a graph without edges, and no edge is refused on the way. A chain lists the edges from
each vertex to the next in ascending order, and a cycle lists them too, and last the edge from
the last vertex to the first, which is a loop if there is no other vertex. For every client that
does not stop the search, and for either strategy, a sort of the chain returns the vertices in
ascending order. So does a sort of the cycle that does not look for cycles; one that does fails,
and reports the edge from the last vertex to the first. A check of the ascending order accepts it
for the chain, and rejects it for the cycle because of that edge. -/
theorem chain_and_cycle_of_every_size {n : Nat} (hn : 1 ≤ n) (hmax : n ≤ maxOrder) :
    ∃ p₀ p q₀ q : Graph,
      (ofOrder n [] = .ok p₀ ∧ Adds (chainEdges n) p₀ p ∧ chain n = .ok p) ∧
      (ofOrder n [.loops] = .ok q₀ ∧ Adds (cycleEdges n) q₀ q ∧ cycle n = .ok q) ∧
      (p.order = n ∧ q.order = n) ∧
      (p.edges = ((List.range (n - 1)).map fun i => ⟨i, i + 1⟩) ∧
        q.edges = p.edges ++ [⟨n - 1, 0⟩]) ∧
      (∀ (o : Options σ) (c : σ), o.Unhindered →
        (topologicalSort (some p.successors) n o c).1 = .ok (vertices n).toArray ∧
          (topologicalSort (some q.successors) n o c).1 =
            if o.detectCycles then .error (.cycle (n - 1) 0) else .ok (vertices n).toArray) ∧
      verify (some p.successors) n (vertices n).toArray = .ok () ∧
        verify (some q.successors) n (vertices n).toArray = .error (.violated (n - 1) 0) := by
  obtain ⟨k, rfl⟩ : ∃ k, n = k + 1 := ⟨n - 1, by omega⟩
  obtain ⟨p₀, p, hp, hporder, hpedges, hpnext⟩ := exists_chain hmax
  obtain ⟨q₀, q, hq, hqorder, hqedges, hqnext⟩ := exists_cycle hmax
  rw [cycleEdges_succ] at hqedges
  have hlast : ((k + 1 : Nat) : Int) - 1 = k := by omega
  have hfirst : IsVertex (k + 1) 0 := isVertex_natCast (Nat.succ_pos k)
  have hpend : p.successors k = [] := by
    rw [hpnext, if_neg fun h => lt_irrefl _ h.2]
  have hqend : q.successors k = [0] := by
    rw [hqnext, if_pos (isVertex_natCast (Nat.lt_succ_self k)), next_last]
  have hpon : p.successors.LeadsOn k := fun i hi => by
    rw [hpnext, if_pos (isVertex_natCast hi)]
  have hqon : q.successors.LeadsOn k := fun i hi => by
    rw [hqnext, if_pos (isVertex_natCast (Nat.lt_succ_of_lt hi)),
      next_of_isVertex (isVertex_natCast hi)]
  rw [hlast]
  refine ⟨p₀, p, q₀, q, hp, hq, ⟨hporder, hqorder⟩, ⟨?_, hpedges ▸ hqedges⟩, fun o c ho => ⟨?_, ?_⟩,
    verify_chain hporder hpedges, verify_cycle hqorder hqedges⟩
  · rw [hpedges, chainEdges, vertices, List.map_map]
    rfl
  · refine hpon.topologicalSort_eq ho c fun u hu => ?_
    rw [hpend] at hu
    exact absurd hu List.not_mem_nil
  · cases hdetect : o.detectCycles with
    | true => exact hqon.topologicalSort_eq_cycle ho c hqend hfirst hdetect
    | false =>
      refine hqon.topologicalSort_eq ho c fun u hu => ?_
      rw [hqend, List.mem_singleton] at hu
      exact ⟨hu ▸ hfirst, hdetect⟩

/-- A single vertex, whose cycle is a loop, sorted by recursion, and three vertices, sorted on a
stack. -/
theorem chain_and_cycle_of_every_size_samples :
    (1 ≤ maxOrder ∧ ∃ p q, chain 1 = .ok p ∧ cycle 1 = .ok q ∧ p.edges = [] ∧ q.edges = [⟨0, 0⟩] ∧
        (topologicalSort (some q.successors) 1
          { strategy := .recursive, detectCycles := true } ()).1 = .error (.cycle 0 0)) ∧
      3 ≤ maxOrder ∧ ∃ p q, chain 3 = .ok p ∧ cycle 3 = .ok q ∧ p.edges = [⟨0, 1⟩, ⟨1, 2⟩] ∧
        q.edges = [⟨0, 1⟩, ⟨1, 2⟩, ⟨2, 0⟩] ∧
        (topologicalSort (some p.successors) 3
          { strategy := .stack, detectCycles := true } ()).1 = .ok #[0, 1, 2] ∧
        (topologicalSort (some q.successors) 3 { strategy := .stack } ()).1 = .ok #[0, 1, 2] ∧
        verify (some q.successors) 3 #[0, 1, 2] = .error (.violated 2 0) := by
  have hone : 1 ≤ maxOrder := by decide
  have hthree : 3 ≤ maxOrder := by decide
  refine ⟨⟨hone, ?_⟩, hthree, ?_⟩
  · obtain ⟨_, p, _, q, hp, hq, -, ⟨hpedges, hqedges⟩, hsort, -⟩ :=
      chain_and_cycle_of_every_size (σ := Unit) (le_refl 1) hone
    rw [hpedges] at hqedges
    exact ⟨p, q, hp.2.2, hq.2.2, hpedges, hqedges,
      (hsort _ () (Options.unhindered_unattended .recursive true)).2⟩
  · obtain ⟨_, p, _, q, hp, hq, -, ⟨hpedges, hqedges⟩, hsort, -, hverify⟩ :=
      chain_and_cycle_of_every_size (σ := Unit) (by decide : 1 ≤ 3) hthree
    rw [hpedges] at hqedges
    exact ⟨p, q, hp.2.2, hq.2.2, hpedges, hqedges,
      (hsort _ () (Options.unhindered_unattended .stack true)).1,
      (hsort _ () (Options.unhindered_unattended .stack false)).2, hverify⟩

end Graph

end TopologicalOrder
