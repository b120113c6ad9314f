import Mathlib
import TopologicalOrder.Proofs.Refusals

/-!
# What becomes of an adjacency

An adjacency is a map, and which of its entries is told first means nothing. A graph is
built from it key by key in ascending order, so that the outcome, an error included, is the
same however the entries are told (`Adjacency.sorted_eq_of_perm`).

The list of a key is a list of edges from that key, and whether it is accepted is a matter
of that list alone: the edges that the graph has by then start at smaller keys, so none of
them is repeated. Hence an entry can be judged on its own (`ValidEntry`), a build succeeds
if all entries are valid, and otherwise it fails at the first that is not
(`Graph.WellFormed.addEntries_cases`). In ascending order that is the one with the smallest
key.
-/

namespace TopologicalOrder

variable {n : Nat} {looped : Bool} {k v : Int} {us : List Int} {x : Int × List Int}
  {err : GraphError}

/-! ## What is wrong with an entry -/

/-- **An entry that the adjacency of a graph of `n` vertices may have.** -/
structure ValidEntry (n : Nat) (looped : Bool) (x : Int × List Int) : Prop where
  /-- The key is a vertex, be its list empty or not. -/
  isVertex_key : IsVertex n x.1
  /-- The successors are vertices. -/
  isVertex_successor : ∀ v ∈ x.2, IsVertex n v
  /-- No successor is repeated. -/
  nodup : x.2.Nodup
  /-- The key is none of its successors unless loops are allowed. -/
  loopless : looped = false → x.1 ∉ x.2

/-- **What is wrong with an entry**: the key, or else the first of its successors that is
refused. -/
inductive EntryError (n : Nat) (looped : Bool) : Int × List Int → GraphError → Prop
  /-- The key is no vertex. -/
  | key {k : Int} {us : List Int} (hkey : ¬ IsVertex n k) :
      EntryError n looped (k, us) (.badKey k n)
  /-- A successor is refused. -/
  | successor {k : Int} {us : List Int} {i : Nat} {fault : EdgeFault} (hkey : IsVertex n k)
      (hfirst : FirstRefused n looped (us.map (Edge.mk k)) i fault) :
      EntryError n looped (k, us) (.badSuccessor fault)

theorem validEntry_iff :
    ValidEntry n looped (k, us) ↔ IsVertex n k ∧ SimpleEdges n looped (us.map (Edge.mk k)) := by
  constructor
  · rintro ⟨hkey, hvertices, hnodup, hloopless⟩
    refine ⟨hkey, fun e he => ?_, ?_, fun hoff e he => ?_⟩
    · obtain ⟨v, hv, rfl⟩ := List.mem_map.mp he
      exact ⟨hkey, hvertices v hv⟩
    · exact hnodup.map fun v w hvw => congrArg Edge.target hvw
    · obtain ⟨v, hv, rfl⟩ := List.mem_map.mp he
      exact fun hkv : k = v => hloopless hoff (hkv ▸ hv)
  · rintro ⟨hkey, hvertices, hnodup, hloopless⟩
    refine ⟨hkey, fun v hv => (hvertices _ (List.mem_map_of_mem hv)).2, hnodup.of_map _, ?_⟩
    exact fun hoff hmem => hloopless hoff _ (List.mem_map_of_mem hmem) rfl

theorem EntryError.not_validEntry (h : EntryError n looped x err) : ¬ ValidEntry n looped x := by
  intro hvalid
  cases h with
  | key hkey => exact hkey hvalid.isVertex_key
  | successor _ hfirst => exact hfirst.not_simpleEdges (validEntry_iff.mp hvalid).2

namespace Graph

variable {g q r : Graph} {fault : EdgeFault} {index i : Nat} {l : List (Int × List Int)}

/-! ## Adding entries -/

/-- Successors are refused as the edges to them are. -/
theorem addSuccessors_of_addEdges
    (h : addEdges index (us.map (Edge.mk k)) g = .error (.badEdge i fault)) :
    addSuccessors k us g = .error fault := by
  induction us generalizing index g with
  | nil => cases h
  | cons v us ih =>
    rw [List.map_cons, addEdges] at h
    rw [addSuccessors]
    rcases addEdge_cases g k v with ⟨fault', ha⟩ | ha
    · rw [ha] at h
      obtain ⟨-, rfl⟩ := GraphError.badEdge.inj (Except.error.inj h)
      rw [ha]
    · rw [ha] at h
      rw [ha]
      exact ih h

/-- **The successors of a key are accepted or refused**, according to what they are, if the
key had none before. -/
theorem WellFormed.addSuccessors_cases (hg : g.WellFormed) (hnone : g.successors k = [])
    (us : List Int) :
    (SimpleEdges g.order g.looped (us.map (Edge.mk k)) ∧
        ∃ q, Adds (us.map (Edge.mk k)) g q ∧ addSuccessors k us g = .ok q) ∨
      ∃ i fault, addSuccessors k us g = .error fault ∧
        FirstRefused g.order g.looped (us.map (Edge.mk k)) i fault := by
  have hsource : ∀ e ∈ us.map (Edge.mk k), g.successors e.source = [] := by
    intro e he
    obtain ⟨v, -, rfl⟩ := List.mem_map.mp he
    exact hnone
  rcases hg.addEdges_cases hsource with ⟨hsimple, q, hadds⟩ | ⟨i, fault, herror, hfirst⟩
  · exact Or.inl ⟨hsimple, q, hadds, addSuccessors_eq_ok.mpr hadds⟩
  · exact Or.inr ⟨i, fault, addSuccessors_of_addEdges herror, hfirst⟩

/-- Edges from one vertex leave the successors of the others as they are. -/
theorem Adds.successors_of_ne (h : Adds (us.map (Edge.mk k)) g q) (hg : g.WellFormed)
    (hv : v ≠ k) : q.successors v = g.successors v := by
  have hfilter : (us.map (Edge.mk k)).filter (fun e => e.source = v) = [] := by
    refine List.filter_eq_nil_iff.mpr fun e he => ?_
    obtain ⟨w, -, rfl⟩ := List.mem_map.mp he
    simpa using hv.symm
  rw [h.successors_eq hg, hfilter, List.map_nil, List.append_nil]

/-- **Entries are added or refused**, according to what they are: all are accepted if all
are valid, and otherwise the build fails at the first that is not. The keys had no successors
before. -/
theorem WellFormed.addEntries_cases (hg : g.WellFormed) (hkeys : (l.map Prod.fst).Nodup)
    (hnone : ∀ x ∈ l, g.successors x.1 = []) :
    ((∀ x ∈ l, ValidEntry g.order g.looped x) ∧ ∃ r, addEntries l g = .ok r) ∨
      ∃ before x after err, l = before ++ x :: after ∧
        (∀ y ∈ before, ValidEntry g.order g.looped y) ∧
        EntryError g.order g.looped x err ∧ addEntries l g = .error err := by
  induction l generalizing g with
  | nil => exact Or.inl ⟨List.forall_mem_nil _, g, rfl⟩
  | cons x l ih =>
    obtain ⟨k, us⟩ := x
    obtain ⟨hfirst, hkeys⟩ := List.nodup_cons.mp hkeys
    obtain ⟨hk, hnone⟩ := List.forall_mem_cons.mp hnone
    rw [addEntries]
    by_cases hkey : IsVertex g.order k
    · rw [if_pos (isVertex_iff.mpr hkey)]
      rcases hg.addSuccessors_cases hk us with ⟨hsimple, q, hadds, hok⟩ | ⟨i, fault, herror, hbad⟩
      · -- the other keys still have no successors, so the rest goes on as it began
        have hrest : ∀ y ∈ l, q.successors y.1 = [] := by
          intro y hy
          have hne : y.1 ≠ k := fun heq => hfirst (List.mem_map.mpr ⟨y, hy, heq⟩)
          rw [hadds.successors_of_ne hg hne, hnone y hy]
        have hvalid : ValidEntry g.order g.looped (k, us) := validEntry_iff.mpr ⟨hkey, hsimple⟩
        have hih := ih (hadds.wellFormed hg) hkeys hrest
        rw [hadds.order_eq.1, hadds.order_eq.2] at hih
        rw [hok]
        rcases hih with ⟨hall, hr⟩ | ⟨before, x, after, err, rfl, hbefore, herr, herror⟩
        · exact Or.inl ⟨List.forall_mem_cons.mpr ⟨hvalid, hall⟩, hr⟩
        · exact Or.inr ⟨(k, us) :: before, x, after, err, rfl,
            List.forall_mem_cons.mpr ⟨hvalid, hbefore⟩, herr, herror⟩
      · rw [herror]
        exact Or.inr ⟨[], (k, us), l, _, rfl, List.forall_mem_nil _, .successor hkey hbad, rfl⟩
    · rw [if_neg fun h => hkey (isVertex_iff.mp h)]
      exact Or.inr ⟨[], (k, us), l, _, rfl, List.forall_mem_nil _, .key hkey, rfl⟩

end Graph

namespace Adjacency

variable {a b : Adjacency}

/-! ## The entries in ascending order -/

theorem mem_sorted : x ∈ a.sorted ↔ x ∈ a.entries := (List.mergeSort_perm _ _).mem_iff

theorem nodup_keys_sorted (a : Adjacency) : (a.sorted.map Prod.fst).Nodup :=
  ((List.mergeSort_perm _ _).map Prod.fst).nodup_iff.mpr a.nodup

theorem pairwise_sorted (a : Adjacency) : a.sorted.Pairwise fun x y => x.1 ≤ y.1 :=
  pairwise_mergeSort_key Prod.fst a.entries

/-- **The order in which the entries are told does not matter**: the keys are distinct, so
there is one way only to sort them. -/
theorem sorted_eq_of_perm (h : b.entries.Perm a.entries) : b.sorted = a.sorted := by
  have hperm : b.sorted.Perm a.sorted :=
    ((List.mergeSort_perm _ _).trans h).trans (List.mergeSort_perm _ _).symm
  refine hperm.eq_of_pairwise (fun x y hx hy hxy hyx => ?_) b.pairwise_sorted a.pairwise_sorted
  exact List.inj_on_of_nodup_map a.nodup_keys_sorted (hperm.mem_iff.mp hx) hy
    (le_antisymm hxy hyx)

theorem successors_of_mem (h : (k, us) ∈ a.entries) : a.successors k = us := by
  have hget : a.get? k = some us := by
    obtain ⟨before, after, hsplit⟩ := List.append_of_mem h
    refine List.lookup_eq_some_iff.mpr ⟨before, after, hsplit, fun y hy => bne_iff_ne.mpr ?_⟩
    have hnodup := a.nodup
    rw [hsplit, List.map_append, List.map_cons] at hnodup
    exact fun heq => (List.nodup_append.mp hnodup).2.2 y.1 (List.mem_map_of_mem hy) k
      List.mem_cons_self heq.symm
  rw [successors, hget, Option.getD_some]

theorem successors_of_not_mem (h : k ∉ a.entries.map Prod.fst) : a.successors k = [] := by
  have hget : a.get? k = none := by
    refine List.lookup_eq_none_iff.mpr fun y hy => bne_iff_ne.mpr ?_
    exact fun heq => h (heq ▸ List.mem_map_of_mem hy)
  rw [successors, hget, Option.getD_none]

/-- **The edges that the entries list for a vertex lead to its successors**, in their
order. -/
theorem targets_sorted (a : Adjacency) (v : Int) :
    ((a.sorted.flatMap fun x => x.2.map fun u => Edge.mk x.1 u).filter
      fun e => e.source = v).map Edge.target = a.successors v := by
  have hentries : (a.sorted.map Prod.fst).map (fun k => (k, a.successors k)) = a.sorted := by
    rw [List.map_map]
    refine (List.map_congr_left fun x hx => ?_).trans (List.map_id _)
    exact Prod.ext rfl (successors_of_mem (mem_sorted.mp hx))
  rw [← hentries, List.flatMap_map, Graph.targets_flatMap a.successors a.nodup_keys_sorted]
  split
  · rfl
  · rename_i hv
    refine (successors_of_not_mem fun hmem => hv ?_).symm
    exact ((List.mergeSort_perm _ _).map Prod.fst).mem_iff.mpr hmem

theorem length_flatMap_sorted (a : Adjacency) :
    (a.sorted.flatMap fun x => x.2.map fun u => Edge.mk x.1 u).length =
      (a.entries.map fun x => x.2.length).sum := by
  rw [List.length_flatMap]
  simp only [List.length_map]
  exact ((List.mergeSort_perm _ _).map _).sum_eq

end Adjacency

namespace Graph

variable {n : Int}

/-! ## The result -/

/-- **An adjacency makes a graph or not**, according to its entries: if all are valid, and
otherwise the error is that of the entry with the smallest key of those that are not. -/
theorem ofAdjacency_cases (hn : 0 ≤ n ∧ n ≤ maxOrder) (a : Adjacency) (ps : List Permission) :
    ((∀ x ∈ a.entries, ValidEntry n.toNat (allowsLoops ps) x) ∧ ∃ g, ofAdjacency n a ps = .ok g) ∨
      ∃ x ∈ a.entries, ∃ err, ofAdjacency n a ps = .error err ∧
        EntryError n.toNat (allowsLoops ps) x err ∧
        ∀ y ∈ a.entries, y.1 < x.1 → ValidEntry n.toNat (allowsLoops ps) y := by
  obtain ⟨g₀, hstart⟩ : ∃ g₀, ofOrder n ps = .ok g₀ := ⟨_, ofOrder_eq_ok.mpr ⟨hn, rfl⟩⟩
  have hcases := (wellFormed_of_ofOrder hstart).addEntries_cases a.nodup_keys_sorted
    fun x _ => successors_of_ofOrder hstart x.1
  rw [(order_of_ofOrder hstart).1, (order_of_ofOrder hstart).2] at hcases
  unfold ofAdjacency
  rw [hstart]
  rcases hcases with ⟨hvalid, hok⟩ | ⟨before, x, after, err, hsplit, hbefore, herr, herror⟩
  · exact Or.inl ⟨fun x hx => hvalid x (Adjacency.mem_sorted.mpr hx), hok⟩
  · have hsorted := a.pairwise_sorted
    rw [hsplit] at hsorted
    refine Or.inr ⟨x, ?_, err, herror, herr, fun y hy hlt => ?_⟩
    · exact Adjacency.mem_sorted.mp (hsplit ▸ List.mem_append_right _ List.mem_cons_self)
    · -- a smaller key stands before, and all that stands before is valid
      rcases List.mem_append.mp (hsplit ▸ Adjacency.mem_sorted.mpr hy) with hy | hy
      · exact hbefore y hy
      · rcases List.mem_cons.mp hy with rfl | hy
        · exact absurd hlt (lt_irrefl _)
        · have hle : x.1 ≤ y.1 :=
            (List.pairwise_cons.mp (List.pairwise_append.mp hsorted).2.1).1 y hy
          exact absurd hlt (not_lt.mpr hle)

/-- **Just the adjacencies with valid entries make a graph, however they are told.** An
adjacency is accepted exactly if the number of vertices is allowed, all keys, also those
with empty lists, and all successors are vertices, no list repeats one, and no key is in its
own list unless loops are allowed. The graph then has the lists of the adjacency, and counts
as many edges as they have together. If the number of vertices is allowed and an entry is
not, the error is that of the smallest key with a problem: the key itself, or else the first
of its successors that is refused. The outcome is the same in whatever order the entries
stand. -/
theorem ofAdjacency_of_valid_entries (n : Int) (a : Adjacency) (ps : List Permission) :
    ((∃ g, ofAdjacency n a ps = .ok g) ↔
        (0 ≤ n ∧ n ≤ maxOrder) ∧ ∀ x ∈ a.entries, ValidEntry n.toNat (allowsLoops ps) x) ∧
      (∀ g, ofAdjacency n a ps = .ok g →
        (g.order : Int) = n ∧ g.looped = allowsLoops ps ∧ (∀ v, g.successors v = a.successors v) ∧
          g.edgeCount = (a.entries.map fun x => x.2.length).sum) ∧
      (0 ≤ n ∧ n ≤ maxOrder → (¬ ∀ x ∈ a.entries, ValidEntry n.toNat (allowsLoops ps) x) →
        ∃ x ∈ a.entries, ∃ err, ofAdjacency n a ps = .error err ∧
          EntryError n.toNat (allowsLoops ps) x err ∧
          ∀ y ∈ a.entries, y.1 < x.1 → ValidEntry n.toNat (allowsLoops ps) y) ∧
      ∀ b : Adjacency, b.entries.Perm a.entries →
        ofAdjacency n b ps = ofAdjacency n a ps := by
  refine ⟨⟨?_, fun h => ?_⟩, fun g h => ?_, fun hn hinvalid => ?_, fun b hperm => ?_⟩
  · rintro ⟨g, h⟩
    obtain ⟨g₀, hstart, -⟩ := ofAdjacency_eq_ok.mp h
    have hn := (ofOrder_eq_ok.mp hstart).1
    rcases ofAdjacency_cases hn a ps with ⟨hvalid, -⟩ | ⟨x, -, err, herror, -⟩
    · exact ⟨hn, hvalid⟩
    · cases herror.symm.trans h
  · refine ((ofAdjacency_cases h.1 a ps).resolve_right ?_).2
    rintro ⟨x, hx, err, -, herr, -⟩
    exact herr.not_validEntry (h.2 x hx)
  · obtain ⟨g₀, hstart, -, hadds⟩ := ofAdjacency_eq_ok.mp h
    have hn := (ofOrder_eq_ok.mp hstart).1
    refine ⟨?_, hadds.order_eq.2.trans (order_of_ofOrder hstart).2, fun v => ?_, ?_⟩
    · rw [hadds.order_eq.1, (order_of_ofOrder hstart).1, Int.toNat_of_nonneg hn.1]
    · rw [successors_of_adds hstart hadds, Adjacency.targets_sorted]
    · rw [edgeCount_of_adds hstart hadds, Adjacency.length_flatMap_sorted]
  · exact (ofAdjacency_cases hn a ps).resolve_left fun h => hinvalid h.1
  · unfold ofAdjacency
    rw [Adjacency.sorted_eq_of_perm hperm]

/-- A key with an empty list is accepted if it is a vertex. Of a key that is none and one
that repeats a successor, the smaller is named, though it is told last. -/
theorem ofAdjacency_of_valid_entries_samples :
    let a : Adjacency := ⟨[(2, []), (0, [2, 1])], by decide⟩
    let b : Adjacency := ⟨[(3, []), (0, [1]), (1, [2, 2, 1])], by decide⟩
    let c : Adjacency := ⟨[(1, [2, 2, 1]), (0, [1]), (3, [])], by decide⟩
    (∃ g, ofAdjacency 3 a [] = .ok g ∧ g.successors 0 = [2, 1] ∧ g.successors 2 = [] ∧
        g.edgeCount = 2) ∧
      ofAdjacency 3 b [] = .error (.badSuccessor (.duplicate 1 2)) ∧
      (∃ x ∈ b.entries, EntryError 3 false x (.badSuccessor (.duplicate 1 2)) ∧
        ∀ y ∈ b.entries, y.1 < x.1 → ValidEntry 3 false y) ∧
      ofAdjacency 3 c [] = ofAdjacency 3 b [] := by
  intro a b c
  have hn : (0 : Int) ≤ 3 ∧ (3 : Int) ≤ maxOrder := by decide
  have hrun : ofAdjacency 3 b [] = .error (.badSuccessor (.duplicate 1 2)) := by cbv
  obtain ⟨hiff, hok, -⟩ := ofAdjacency_of_valid_entries 3 a []
  obtain ⟨-, -, hbad, hperm⟩ := ofAdjacency_of_valid_entries 3 b []
  refine ⟨?_, hrun, ?_, hperm c (by decide)⟩
  · obtain ⟨g, hg⟩ := hiff.mpr ⟨hn, by
      intro x hx
      simp only [a, List.mem_cons, List.not_mem_nil, or_false] at hx
      rcases hx with rfl | rfl
      · exact ⟨by decide, by decide, by decide, by decide⟩
      · exact ⟨by decide, by decide, by decide, by decide⟩⟩
    obtain ⟨-, -, hsuccessors, hcount⟩ := hok g hg
    exact ⟨g, hg, hsuccessors 0, hsuccessors 2, hcount⟩
  · have hinvalid : ¬ ∀ x ∈ b.entries, ValidEntry 3 false x := fun h =>
      absurd (h (1, [2, 2, 1]) (by decide)).nodup (by decide)
    obtain ⟨x, hx, err, herror, herr, hleast⟩ := hbad hn hinvalid
    obtain rfl := Except.error.inj (hrun.symm.trans herror)
    exact ⟨x, hx, herr, hleast⟩

end Graph

end TopologicalOrder
