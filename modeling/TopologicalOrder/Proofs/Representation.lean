import Mathlib
import TopologicalOrder.Family.Random
import TopologicalOrder.Proofs.Reachability

/-!
# What a validated graph is

A graph is grown by one operation, so everything about graphs starts with what that
operation does: an edge is accepted exactly if it is *admissible* – both ends are
vertices, and it is no loop unless loops are allowed – and not there yet, and it is
then put behind the edges of its source (`Graph.addEdge_eq_ok`). Nothing else
changes, and nothing at all if the edge is refused (`Graph.eq_of_addEdge_eq_error`).

From this follows what every graph keeps to (`Graph.WellFormed`): it has one list
per vertex, the lists hold vertices without repetition, and the counter, which is
stored apart from the lists, is their total length. Each way to build a graph adds
a list of edges one by one to a graph without edges (`Graph.Adds`), so the graphs
that can be built at all keep to it (`Graph.Built.wellFormed`).
-/

namespace TopologicalOrder

/-- **An edge that a graph of `n` vertices may have**: its ends are vertices, and they
differ unless loops are allowed. -/
def Edge.Admissible (n : Nat) (looped : Bool) (e : Edge) : Prop :=
  IsVertex n e.source ∧ IsVertex n e.target ∧ (e.source ≠ e.target ∨ looped = true)

instance (n : Nat) (looped : Bool) : DecidablePred (Edge.Admissible n looped) :=
  fun _ => inferInstanceAs (Decidable (_ ∧ _ ∧ _))

/-- Whether loops are among the permissions. -/
def allowsLoops (ps : List Permission) : Bool := ps.contains .loops

namespace Graph

variable {g r q : Graph} {u v w : Int} {e : Edge} {es : List Edge}

/-! ## Adding an edge -/

theorem isVertex_iff : g.isVertex v = true ↔ IsVertex g.order v := by
  simp [isVertex, IsVertex]

theorem hasEdge_iff : g.hasEdge u v = true ↔ v ∈ g.successors u := by
  simp [hasEdge]

theorem successors_of_not_isVertex (h : ¬ IsVertex g.order v) : g.successors v = [] :=
  if_neg fun hv => h (isVertex_iff.mp hv)

/-- The graph with one more edge from `u` to `v`. -/
def withEdge (g : Graph) (u v : Int) : Graph :=
  { g with
    lists := g.lists.setIfInBounds u.toNat (g.successors u ++ [v])
    edgeCount := g.edgeCount + 1 }

/-- **An admissible edge is refused only as a second copy.** -/
theorem addEdge_of_admissible (h : Edge.Admissible g.order g.looped ⟨u, v⟩) :
    g.addEdge u v =
      if v ∈ g.successors u then (.error (.duplicate u v), g) else (.ok (), g.withEdge u v) := by
  obtain ⟨hu, hv, hloop⟩ := h
  have hrefused : ¬ (u = v ∧ g.looped = false) := fun ⟨huv, hoff⟩ =>
    hloop.elim (fun hne => hne huv) fun hon => nomatch hoff.symm.trans hon
  unfold addEdge
  rw [if_neg (by simpa using isVertex_iff.mpr hu), if_neg (by simpa using isVertex_iff.mpr hv),
    if_neg hrefused]
  simp only [hasEdge_iff]
  rfl

/-- **An edge is accepted if it is admissible and new.** -/
theorem addEdge_eq_ok :
    g.addEdge u v = (.ok (), r) ↔
      Edge.Admissible g.order g.looped ⟨u, v⟩ ∧ v ∉ g.successors u ∧ r = g.withEdge u v := by
  constructor
  · intro h
    unfold addEdge at h
    split at h
    · cases h
    · rename_i hu
      split at h
      · cases h
      · rename_i hv
        split at h
        · cases h
        · rename_i hloop
          split at h
          · cases h
          · rename_i hedge
            refine ⟨⟨isVertex_iff.mp (by simpa using hu), isVertex_iff.mp (by simpa using hv), ?_⟩,
              fun hmem => hedge (hasEdge_iff.mpr hmem), (Prod.mk.inj h).2.symm⟩
            by_cases huv : u = v
            · exact Or.inr (by simpa [huv] using hloop)
            · exact Or.inl huv
  · rintro ⟨hadmissible, hnew, rfl⟩
    rw [addEdge_of_admissible hadmissible, if_neg hnew]

/-- **A refused edge leaves the graph as it was.** -/
theorem eq_of_addEdge_eq_error {fault : EdgeFault} (h : g.addEdge u v = (.error fault, r)) :
    r = g := by
  unfold addEdge at h
  repeat' split at h
  all_goals cases h <;> rfl

/-- An edge that is admissible and new is not refused. -/
theorem not_new_of_addEdge_eq_error {fault : EdgeFault} (h : g.addEdge u v = (.error fault, r)) :
    ¬ (Edge.Admissible g.order g.looped ⟨u, v⟩ ∧ v ∉ g.successors u) := fun ⟨hadmissible, hnew⟩ =>
  nomatch h.symm.trans (addEdge_eq_ok.mpr ⟨hadmissible, hnew, rfl⟩)

/-- **What comes of an edge**: it is accepted, or it is refused and nothing changes. -/
theorem addEdge_cases (g : Graph) (u v : Int) :
    (∃ fault, g.addEdge u v = (.error fault, g)) ∨ g.addEdge u v = (.ok (), g.withEdge u v) := by
  cases h : g.addEdge u v with
  | mk answer r =>
    cases answer with
    | error fault => exact Or.inl ⟨fault, by rw [eq_of_addEdge_eq_error h]⟩
    | ok => exact Or.inr (by rw [(addEdge_eq_ok.mp h).2.2])

/-! ## Well-formed graphs -/

/-- **What every graph keeps to.** -/
structure WellFormed (g : Graph) : Prop where
  /-- The number of vertices is bounded. -/
  order_le : g.order ≤ maxOrder
  /-- There is one list per vertex. -/
  size_lists : g.lists.size = g.order
  /-- The list of a vertex holds vertices, none of them twice, and not the vertex
  itself unless loops are allowed. -/
  list_ok : ∀ (i : Nat) (us : List Int), g.lists[i]? = some us →
    (∀ u ∈ us, IsVertex g.order u) ∧ us.Nodup ∧ (g.looped = false → (i : Int) ∉ us)
  /-- The counter is the total length of the lists. -/
  edgeCount_eq : g.edgeCount = (g.lists.toList.map List.length).sum

/-- The list at the place of a vertex is the list of its successors. -/
theorem WellFormed.getElem?_lists (h : g.WellFormed) (hv : IsVertex g.order v) :
    g.lists[v.toNat]? = some (g.successors v) := by
  have hlt : v.toNat < g.lists.size := by
    have h0 := hv.1
    have hn := hv.2
    rw [h.size_lists]
    omega
  unfold successors
  rw [if_pos (isVertex_iff.mpr hv), Array.getD_eq_getD_getElem?, Array.getElem?_eq_getElem hlt]
  rfl

theorem WellFormed.isVertex_of_mem (h : g.WellFormed) (hu : u ∈ g.successors v) :
    IsVertex g.order v ∧ IsVertex g.order u := by
  have hv : IsVertex g.order v := Classical.byContradiction fun hnot => by
    rw [successors_of_not_isVertex hnot] at hu
    exact List.not_mem_nil hu
  exact ⟨hv, (h.list_ok _ _ (h.getElem?_lists hv)).1 u hu⟩

theorem WellFormed.closed (h : g.WellFormed) : g.successors.Closed g.order :=
  fun _ _ _ hu => (h.isVertex_of_mem hu).2

theorem WellFormed.nodup_successors (h : g.WellFormed) (v : Int) : (g.successors v).Nodup := by
  by_cases hv : IsVertex g.order v
  · exact (h.list_ok _ _ (h.getElem?_lists hv)).2.1
  · rw [successors_of_not_isVertex hv]
    exact List.nodup_nil

/-- The edges that a graph has are admissible. -/
theorem WellFormed.admissible_of_mem (h : g.WellFormed) (hu : u ∈ g.successors v) :
    Edge.Admissible g.order g.looped ⟨v, u⟩ := by
  obtain ⟨hv, hvertex⟩ := h.isVertex_of_mem hu
  refine ⟨hv, hvertex, ?_⟩
  by_cases hloop : g.looped = true
  · exact Or.inr hloop
  · refine Or.inl fun hvu => ?_
    have hnot := (h.list_ok _ _ (h.getElem?_lists hv)).2.2 (Bool.eq_false_iff.mpr hloop)
    rw [Int.toNat_of_nonneg hv.1] at hnot
    exact hnot (by rw [show v = u from hvu] at hu ⊢; exact hu)

/-- The lists are the successors of the vertices, in ascending order of these. -/
theorem WellFormed.toList_lists (h : g.WellFormed) :
    g.lists.toList = (vertices g.order).map g.successors := by
  refine List.ext_getElem? (fun i => ?_)
  rw [Array.getElem?_toList, vertices, List.map_map, List.getElem?_map]
  by_cases hi : i < g.order
  · have hv : IsVertex g.order (i : Int) := ⟨Int.natCast_nonneg i, Int.ofNat_lt.mpr hi⟩
    rw [List.getElem?_range hi]
    exact h.getElem?_lists hv
  · rw [Array.getElem?_eq_none (by rw [h.size_lists]; omega),
      List.getElem?_eq_none (by rw [List.length_range]; omega)]
    rfl

/-- A new edge is the last of its source and changes no other list. -/
theorem WellFormed.successors_withEdge (h : g.WellFormed) (hu : IsVertex g.order u) (v w : Int) :
    (g.withEdge u v).successors w =
      if w = u then g.successors u ++ [v] else g.successors w := by
  by_cases hw : IsVertex g.order w
  · have hvertex : (g.withEdge u v).isVertex w = true := isVertex_iff.mpr hw
    have hlists : g.isVertex w = true := isVertex_iff.mpr hw
    rw [← h.size_lists] at hu hw
    unfold successors
    rw [if_pos hvertex, if_pos hlists]
    exact getD_setIfInBounds_toNat g.lists _ [] hu hw
  · have hwu : w ≠ u := fun heq => hw (heq ▸ hu)
    rw [if_neg hwu, successors_of_not_isVertex hw]
    exact successors_of_not_isVertex (g := g.withEdge u v) hw

theorem sum_set_succ {l : List Nat} {i k : Nat} (h : l[i]? = some k) :
    (l.set i (k + 1)).sum = l.sum + 1 := by
  induction l generalizing i with
  | nil => exact nomatch h
  | cons a l ih =>
    cases i with
    | zero =>
      obtain rfl : a = k := by simpa using h
      simp only [List.set_cons_zero, List.sum_cons]
      omega
    | succ i =>
      rw [List.getElem?_cons_succ] at h
      rw [List.set_cons_succ, List.sum_cons, List.sum_cons, ih h, Nat.add_assoc]

/-- An admissible new successor keeps the list of its source in order. -/
theorem WellFormed.list_ok_concat (h : g.WellFormed)
    (hadmissible : Edge.Admissible g.order g.looped ⟨u, v⟩) (hnew : v ∉ g.successors u) :
    (∀ x ∈ g.successors u ++ [v], IsVertex g.order x) ∧ (g.successors u ++ [v]).Nodup ∧
      (g.looped = false → (u.toNat : Int) ∉ g.successors u ++ [v]) := by
  obtain ⟨hu, hv, hloop⟩ := hadmissible
  obtain ⟨hvertices, hnodup, hloopless⟩ := h.list_ok _ _ (h.getElem?_lists hu)
  refine ⟨fun x hx => ?_, ?_, fun hoff hx => ?_⟩
  · rcases List.mem_append.mp hx with hx | hx
    · exact hvertices x hx
    · exact List.mem_singleton.mp hx ▸ hv
  · rw [← List.concat_eq_append]
    exact hnodup.concat hnew
  · rcases List.mem_append.mp hx with hx | hx
    · exact hloopless hoff hx
    · rw [Int.toNat_of_nonneg hu.1, List.mem_singleton] at hx
      exact hloop.elim (fun hne => hne hx) fun hon => nomatch hoff.symm.trans hon

/-- **Adding an edge keeps a graph well-formed.** -/
theorem WellFormed.addEdge (h : g.WellFormed) (ha : g.addEdge u v = (.ok (), r)) :
    r.WellFormed := by
  obtain ⟨hadmissible, hnew, rfl⟩ := addEdge_eq_ok.mp ha
  have hlist := h.getElem?_lists hadmissible.1
  refine ⟨h.order_le, Array.size_setIfInBounds.trans h.size_lists, fun i us hi => ?_, ?_⟩
  · change (g.lists.setIfInBounds u.toNat (g.successors u ++ [v]))[i]? = some us at hi
    rw [Array.getElem?_setIfInBounds] at hi
    split at hi
    · -- the list of `u`, to which `v` has been added
      rename_i hi'
      subst hi'
      obtain rfl : g.successors u ++ [v] = us := by
        split at hi
        · exact Option.some.inj hi
        · exact nomatch hi
      exact h.list_ok_concat hadmissible hnew
    · exact h.list_ok i us hi
  · show g.edgeCount + 1 =
      ((g.lists.setIfInBounds u.toNat (g.successors u ++ [v])).toList.map List.length).sum
    rw [Array.toList_setIfInBounds, List.map_set, List.length_append, List.length_singleton,
      sum_set_succ, h.edgeCount_eq]
    rw [List.getElem?_map, Array.getElem?_toList, hlist]
    rfl

/-! ## Adding many edges -/

/-- **Adding the edges of a list one by one**, all of which are accepted. -/
inductive Adds : List Edge → Graph → Graph → Prop
  /-- No edge is left. -/
  | nil (g : Graph) : Adds [] g g
  /-- The first edge is accepted. -/
  | cons {e : Edge} {es : List Edge} {g q r : Graph}
      (h : g.addEdge e.source e.target = (.ok (), q)) (hrest : Adds es q r) : Adds (e :: es) g r

theorem adds_append {ds : List Edge} :
    Adds (es ++ ds) g r ↔ ∃ q, Adds es g q ∧ Adds ds q r := by
  constructor
  · intro h
    induction es generalizing g with
    | nil => exact ⟨g, .nil g, h⟩
    | cons e es ih =>
      cases h with
      | cons ha hrest =>
        obtain ⟨q, hq, hr⟩ := ih hrest
        exact ⟨q, .cons ha hq, hr⟩
  · rintro ⟨q, hq, hr⟩
    induction hq with
    | nil => exact hr
    | cons ha _ ih => exact .cons ha (ih hr)

/-- **Adding any number of edges keeps a graph well-formed.** -/
theorem Adds.wellFormed (h : Adds es g r) (hg : g.WellFormed) : r.WellFormed := by
  induction h with
  | nil => exact hg
  | cons ha _ ih => exact ih (hg.addEdge ha)

theorem Adds.order_eq (h : Adds es g r) : r.order = g.order ∧ r.looped = g.looped := by
  induction h with
  | nil => exact ⟨rfl, rfl⟩
  | cons ha _ ih =>
    obtain ⟨-, -, rfl⟩ := addEdge_eq_ok.mp ha
    exact ih

/-- **The successors after many edges** are those before, followed by the targets of the
edges that start at the vertex. -/
theorem Adds.successors_eq (h : Adds es g r) (hg : g.WellFormed) (w : Int) :
    r.successors w =
      g.successors w ++ (es.filter fun e => e.source = w).map Edge.target := by
  induction h with
  | nil => rw [List.filter_nil, List.map_nil, List.append_nil]
  | @cons e es g q r ha _ ih =>
    rw [ih (hg.addEdge ha)]
    obtain ⟨⟨hu, -, -⟩, -, rfl⟩ := addEdge_eq_ok.mp ha
    rw [hg.successors_withEdge hu]
    by_cases hw : w = e.source
    · subst hw
      rw [if_pos rfl, List.filter_cons_of_pos (by simp), List.map_cons, List.append_assoc]
      rfl
    · rw [if_neg hw, List.filter_cons_of_neg (by simpa using fun heq => hw heq.symm)]

/-- **Edges that are admissible, new and all different are accepted**, whatever their
order. -/
theorem WellFormed.exists_adds (h : g.WellFormed)
    (hnew : ∀ e ∈ es, e.Admissible g.order g.looped ∧ e.target ∉ g.successors e.source)
    (hnodup : es.Nodup) : ∃ r, Adds es g r := by
  induction es generalizing g with
  | nil => exact ⟨g, .nil g⟩
  | cons e es ih =>
    obtain ⟨⟨hadmissible, hfresh⟩, hrest⟩ := List.forall_mem_cons.mp hnew
    obtain ⟨hne, hnodup⟩ := List.nodup_cons.mp hnodup
    have ha : g.addEdge e.source e.target = (.ok (), g.withEdge e.source e.target) :=
      addEdge_eq_ok.mpr ⟨hadmissible, hfresh, rfl⟩
    -- an edge that is still to come is not the one that has been added
    have hlater : ∀ d ∈ es, d.Admissible g.order g.looped ∧
        d.target ∉ (g.withEdge e.source e.target).successors d.source := by
      intro d hd
      refine ⟨(hrest d hd).1, ?_⟩
      rw [h.successors_withEdge hadmissible.1]
      split
      · rename_i hsource
        intro hmem
        rcases List.mem_append.mp hmem with hmem | hmem
        · exact (hrest d hd).2 (hsource ▸ hmem)
        · have hde : d = e := by
            cases d
            cases e
            exact congrArg₂ Edge.mk hsource (List.mem_singleton.mp hmem)
          exact hne (hde ▸ hd)
      · exact (hrest d hd).2
    obtain ⟨r, hr⟩ := ih (h.addEdge ha) hlater hnodup
    exact ⟨r, .cons ha hr⟩

/-! ## Building graphs -/

/-- Granting permissions changes nothing but whether loops are allowed. -/
theorem foldl_grant (ps : List Permission) (g : Graph) :
    ps.foldl grant g = { g with looped := g.looped || allowsLoops ps } := by
  induction ps generalizing g with
  | nil => rw [List.foldl_nil, allowsLoops, List.contains_nil, Bool.or_false]
  | cons p ps ih =>
    cases p
    rw [List.foldl_cons, ih, grant, allowsLoops, allowsLoops, List.contains_cons]
    simp

variable {n : Int} {ps : List Permission}

/-- The graph without edges is built if its size is allowed. -/
theorem ofOrder_eq_ok :
    ofOrder n ps = .ok g ↔ (0 ≤ n ∧ n ≤ maxOrder) ∧
      g = { order := n.toNat, looped := allowsLoops ps, lists := Array.replicate n.toNat [],
            edgeCount := 0 } := by
  unfold ofOrder
  rw [foldl_grant, Bool.false_or]
  by_cases hneg : n < 0
  · simp only [if_pos hneg, reduceCtorEq, false_iff]
    omega
  · by_cases hlarge : (maxOrder : Int) < n
    · simp only [if_neg hneg, if_pos hlarge, reduceCtorEq, false_iff]
      omega
    · rw [if_neg hneg, if_neg hlarge, Except.ok.injEq]
      exact ⟨fun h => ⟨⟨by omega, by omega⟩, h.symm⟩, fun h => h.2.symm⟩

theorem order_of_ofOrder (h : ofOrder n ps = .ok g) :
    g.order = n.toNat ∧ g.looped = allowsLoops ps := by
  obtain ⟨-, rfl⟩ := ofOrder_eq_ok.mp h
  exact ⟨rfl, rfl⟩

theorem wellFormed_of_ofOrder (h : ofOrder n ps = .ok g) : g.WellFormed := by
  obtain ⟨⟨h0, hmax⟩, rfl⟩ := ofOrder_eq_ok.mp h
  refine ⟨by show n.toNat ≤ maxOrder; omega, Array.size_replicate, fun i us hi => ?_, ?_⟩
  · -- every list is empty
    change (Array.replicate n.toNat ([] : List Int))[i]? = some us at hi
    rw [Array.getElem?_replicate] at hi
    split at hi
    · obtain rfl := Option.some.inj hi
      exact ⟨by simp, List.nodup_nil, fun _ => List.not_mem_nil⟩
    · exact nomatch hi
  · simp

theorem successors_of_ofOrder (h : ofOrder n ps = .ok g) (v : Int) : g.successors v = [] := by
  obtain ⟨-, rfl⟩ := ofOrder_eq_ok.mp h
  unfold successors
  rw [Array.getD_eq_getD_getElem?, Array.getElem?_replicate]
  split
  · split <;> rfl
  · rfl

/-- **A build that takes a list of edges one after the other** and ends at the first
refusal succeeds exactly if it adds them all. It may count the edges. -/
theorem eq_ok_iff_adds {ε : Type} (build : Nat → List Edge → Graph → Except ε Graph)
    (hnil : ∀ i g, build i [] g = .ok g)
    (hok : ∀ i e es g q, addEdge g e.source e.target = (.ok (), q) →
      build i (e :: es) g = build (i + 1) es q)
    (herror : ∀ i e es g fault, addEdge g e.source e.target = (.error fault, g) →
      ∃ x, build i (e :: es) g = .error x)
    (i : Nat) : build i es g = .ok r ↔ Adds es g r := by
  constructor
  · intro h
    induction es generalizing i g with
    | nil =>
      obtain rfl := Except.ok.inj ((hnil i g).symm.trans h)
      exact .nil g
    | cons e es ih =>
      rcases addEdge_cases g e.source e.target with ⟨fault, ha⟩ | ha
      · obtain ⟨x, hx⟩ := herror i e es g fault ha
        exact nomatch hx.symm.trans h
      · exact .cons ha (ih (i + 1) ((hok i e es g _ ha).symm.trans h))
  · intro h
    induction h generalizing i with
    | nil g => exact hnil i g
    | cons ha _ ih => exact (hok i _ _ _ _ ha).trans (ih (i + 1))

theorem addEdges_eq_ok {index : Nat} : addEdges index es g = .ok r ↔ Adds es g r :=
  eq_ok_iff_adds addEdges (fun _ _ => rfl) (fun _ _ _ _ _ ha => by rw [addEdges, ha])
    (fun _ _ _ _ _ ha => ⟨_, by rw [addEdges, ha]⟩) index

theorem familyAddEdges_eq_ok {f : Family} : f.addEdges es g = .ok r ↔ Adds es g r :=
  eq_ok_iff_adds (fun _ => f.addEdges) (fun _ _ => rfl)
    (fun _ _ _ _ _ ha => by rw [Family.addEdges, ha])
    (fun _ _ _ _ _ ha => ⟨_, by rw [Family.addEdges, ha]⟩) 0

theorem addSuccessors_eq_ok {vs : List Int} :
    addSuccessors u vs g = .ok r ↔ Adds (vs.map fun v => ⟨u, v⟩) g r := by
  induction vs generalizing g with
  | nil =>
    refine ⟨fun h => ?_, fun h => ?_⟩
    · obtain rfl := Except.ok.inj h
      exact .nil _
    · cases h
      rfl
  | cons v vs ih =>
    rw [addSuccessors, List.map_cons]
    rcases addEdge_cases g u v with ⟨fault, ha⟩ | ha
    · rw [ha]
      refine ⟨(fun h => nomatch h), fun h => ?_⟩
      cases h with
      | cons h _ => exact nomatch ha.symm.trans h
    · rw [ha]
      refine ⟨fun h => .cons ha (ih.mp h), fun h => ?_⟩
      cases h with
      | cons h hrest =>
        obtain rfl := (Prod.mk.inj (ha.symm.trans h)).2
        exact ih.mpr hrest

/-- **Adding the lists of entries** adds their edges, if the keys are vertices. -/
theorem addEntries_eq_ok {l : List (Int × List Int)} :
    addEntries l g = .ok r ↔ (∀ x ∈ l, IsVertex g.order x.1) ∧
      Adds (l.flatMap fun x => x.2.map fun v => ⟨x.1, v⟩) g r := by
  induction l generalizing g with
  | nil =>
    refine ⟨fun h => ?_, fun h => ?_⟩
    · obtain rfl := Except.ok.inj h
      exact ⟨fun x hx => absurd hx List.not_mem_nil, .nil _⟩
    · cases h.2
      rfl
  | cons x l ih =>
    obtain ⟨k, vs⟩ := x
    rw [addEntries, List.forall_mem_cons, List.flatMap_cons]
    by_cases hk : g.isVertex k = true
    · rw [if_pos hk]
      cases hs : addSuccessors k vs g with
      | error fault =>
        refine iff_of_false (fun h => nomatch h) fun h => ?_
        obtain ⟨q, hq, -⟩ := adds_append.mp h.2
        exact nomatch hs.symm.trans (addSuccessors_eq_ok.mpr hq)
      | ok q =>
        have hq := addSuccessors_eq_ok.mp hs
        dsimp only
        rw [ih, hq.order_eq.1]
        refine ⟨fun h => ⟨⟨isVertex_iff.mp hk, h.1⟩, adds_append.mpr ⟨q, hq, h.2⟩⟩, fun h => ?_⟩
        obtain ⟨q', hq', hr⟩ := adds_append.mp h.2
        obtain rfl := Except.ok.inj (hs.symm.trans (addSuccessors_eq_ok.mpr hq'))
        exact ⟨h.1.2, hr⟩
    · rw [if_neg hk]
      exact iff_of_false (fun h => nomatch h) fun h => hk (isVertex_iff.mpr h.1.1)

theorem ofEdges_eq_ok :
    ofEdges n es ps = .ok r ↔ ∃ g, ofOrder n ps = .ok g ∧ Adds es g r := by
  unfold ofEdges
  cases ofOrder n ps with
  | error e => simp
  | ok g => simp [addEdges_eq_ok]

theorem ofAdjacency_eq_ok {a : Adjacency} :
    ofAdjacency n a ps = .ok r ↔ ∃ g, ofOrder n ps = .ok g ∧
      (∀ x ∈ a.sorted, IsVertex g.order x.1) ∧
      Adds (a.sorted.flatMap fun x => x.2.map fun v => ⟨x.1, v⟩) g r := by
  unfold ofAdjacency
  cases ofOrder n ps with
  | error e => simp
  | ok g => simp [addEntries_eq_ok]

theorem ofOrder_of_start {f : Family} (h : f.start n ps = .ok g) : ofOrder n ps = .ok g := by
  unfold Family.start at h
  split at h
  · exact nomatch h
  · split at h
    · exact nomatch h
    · rename_i hg
      rw [hg]
      exact congrArg Except.ok (Except.ok.inj h)

section Random

variable {γ : Type} {gen : Option (Random.Generator γ)} {p : Float} {s s' : γ}

theorem adds_of_addTrials {vs : List Int} (h : addTrials gen p u vs g s = (.ok r, s')) :
    ∃ es, Adds es g r := by
  induction vs generalizing g s with
  | nil =>
    obtain rfl := Except.ok.inj (congrArg Prod.fst h)
    exact ⟨[], .nil g⟩
  | cons v vs ih =>
    unfold addTrials at h
    split at h
    · exact nomatch congrArg Prod.fst h
    · exact ih h
    · split at h
      · exact nomatch congrArg Prod.fst h
      · rename_i ha
        obtain ⟨es, hes⟩ := ih h
        exact ⟨⟨u, v⟩ :: es, .cons ha hes⟩

theorem adds_of_addForward {vs : List Int} (h : addForward gen p vs g s = (.ok r, s')) :
    ∃ es, Adds es g r := by
  induction vs generalizing g s with
  | nil =>
    obtain rfl := Except.ok.inj (congrArg Prod.fst h)
    exact ⟨[], .nil g⟩
  | cons v vs ih =>
    unfold addForward at h
    split at h
    · exact nomatch congrArg Prod.fst h
    · rename_i htrials
      obtain ⟨ds, hds⟩ := adds_of_addTrials htrials
      obtain ⟨es, hes⟩ := ih h
      exact ⟨ds ++ es, adds_append.mpr ⟨_, hds, hes⟩⟩

end Random

/-! ## The graphs that can be built -/

/-- The graph that is held after edges have been asked for in turn. -/
def replay (g : Graph) (es : List Edge) : Graph :=
  es.foldl (fun g e => (g.addEdge e.source e.target).2) g

/-- **A graph that can be built**: by one of the constructors, as a copy, or by asking such
a graph for an edge, whether it is accepted or refused. -/
inductive Built : Graph → Prop
  /-- A graph without edges. -/
  | ofOrder {n : Int} {ps : List Permission} {g : Graph} (h : ofOrder n ps = .ok g) : Built g
  /-- A graph from an adjacency. -/
  | ofAdjacency {n : Int} {a : Adjacency} {ps : List Permission} {g : Graph}
      (h : ofAdjacency n a ps = .ok g) : Built g
  /-- A graph from a list of edges. -/
  | ofEdges {n : Int} {es : List Edge} {ps : List Permission} {g : Graph}
      (h : ofEdges n es ps = .ok g) : Built g
  /-- A graph of the family without edges. -/
  | isolated {n : Int} {g : Graph} (h : isolated n = .ok g) : Built g
  /-- A path. -/
  | chain {n : Int} {g : Graph} (h : chain n = .ok g) : Built g
  /-- A closed path. -/
  | cycle {n : Int} {g : Graph} (h : cycle n = .ok g) : Built g
  /-- A random graph. -/
  | random {γ : Type} {n : Int} {p : Float} {gen : Option (Random.Generator γ)} {s : γ}
      {g : Graph} (h : (random n p gen s).1 = .ok g) : Built g
  /-- A copy. -/
  | clone {g : Graph} (h : Built g) : Built g.clone
  /-- What is left when an edge has been asked for. -/
  | addEdge {g : Graph} (h : Built g) (u v : Int) : Built (g.addEdge u v).2

/-- A copy of a well-formed graph is that graph. -/
theorem WellFormed.clone_eq (h : g.WellFormed) : g.clone = g := by
  unfold clone
  rw [← h.toList_lists]

/-- What comes out of a build that adds edges to a graph without edges. -/
def Grown (g : Graph) : Prop :=
  ∃ n ps g₀ es, Graph.ofOrder n ps = .ok g₀ ∧ Adds es g₀ g

theorem Grown.wellFormed (h : g.Grown) : g.WellFormed := by
  obtain ⟨n, ps, g₀, es, hstart, hadds⟩ := h
  exact hadds.wellFormed (wellFormed_of_ofOrder hstart)

theorem Grown.addEdge (h : g.Grown) (u v : Int) : (g.addEdge u v).2.Grown := by
  rcases addEdge_cases g u v with ⟨fault, ha⟩ | ha
  · rw [ha]
    exact h
  · obtain ⟨n, ps, g₀, es, hstart, hadds⟩ := h
    have hlast : Adds [⟨u, v⟩] g (g.withEdge u v) := .cons ha (.nil _)
    rw [ha]
    exact ⟨n, ps, g₀, es ++ [⟨u, v⟩], hstart, adds_append.mpr ⟨g, hadds, hlast⟩⟩

theorem grown_of_random {γ : Type} {p : Float} {gen : Option (Random.Generator γ)} {s : γ}
    (h : (random n p gen s).1 = .ok g) : g.Grown := by
  unfold random at h
  split at h
  · cases h
  · split at h
    · cases h
    · split at h
      · cases h
      · split at h
        · cases h
        · rename_i g₀ hstart
          obtain ⟨es, hes⟩ := adds_of_addForward (Prod.ext h rfl)
          exact ⟨_, _, g₀, es, ofOrder_of_start hstart, hes⟩

/-- **Every graph that can be built is grown from a graph without edges.** -/
theorem Built.grown (h : g.Built) : g.Grown := by
  induction h with
  | ofOrder h => exact ⟨_, _, _, [], h, .nil _⟩
  | ofAdjacency h =>
    obtain ⟨g₀, hstart, -, hadds⟩ := ofAdjacency_eq_ok.mp h
    exact ⟨_, _, g₀, _, hstart, hadds⟩
  | ofEdges h =>
    obtain ⟨g₀, hstart, hadds⟩ := ofEdges_eq_ok.mp h
    exact ⟨_, _, g₀, _, hstart, hadds⟩
  | isolated h => exact ⟨_, _, _, [], ofOrder_of_start h, .nil _⟩
  | chain h =>
    unfold Graph.chain at h
    split at h
    · cases h
    · rename_i hstart
      exact ⟨_, _, _, _, ofOrder_of_start hstart, familyAddEdges_eq_ok.mp h⟩
  | cycle h =>
    unfold Graph.cycle at h
    split at h
    · cases h
    · rename_i hstart
      exact ⟨_, _, _, _, ofOrder_of_start hstart, familyAddEdges_eq_ok.mp h⟩
  | random h => exact grown_of_random h
  | clone _ ih =>
    rw [ih.wellFormed.clone_eq]
    exact ih
  | addEdge _ u v ih => exact ih.addEdge u v

theorem Built.wellFormed (h : g.Built) : g.WellFormed := h.grown.wellFormed

theorem Built.replay (h : g.Built) (es : List Edge) : (g.replay es).Built := by
  induction es generalizing g with
  | nil => exact h
  | cons e es ih => exact ih (h.addEdge e.source e.target)

end Graph

end TopologicalOrder
