import Mathlib
import TopologicalOrder.Proofs.KeyedHistory
import TopologicalOrder.Proofs.Numbering

/-!
# How a keyed graph grows

A call for an edge makes both its keys vertices before it looks whether the edge is there
already. That a refused call changes nothing is therefore not to be seen from the call; it
holds because a key that is made a vertex just now has no edges yet, so that an edge can be
refused only if both its keys were vertices before.

What a call for an edge adds is told by two questions, whether its source is a vertex and
whether its target is one (`KeyedGraph.freshKeys`, `KeyedGraph.endNumbers`); with them the
call is one equation (`KeyedGraph.WellFormed.addEdge_eq_growth`). The keys need not equal
themselves. One that does not is no vertex, however often it was made one, and becomes a new
one each time, twice if it is both ends of the edge.
-/

namespace TopologicalOrder

namespace Interner

variable {K : Type} [BEq K] {t : Interner K} {a b k : K} {i : Nat}

theorem lookup_withKey (t : Interner K) (k a : K) :
    (t.withKey k).lookup a = if a == k then some t.size else t.lookup a := by
  show List.lookup a ((k, t.size) :: t.index) = _
  rw [List.lookup_cons]
  cases a == k <;> rfl

/-- **Equal keys have one number.** -/
theorem lookup_congr [PartialEquivBEq K] (t : Interner K) (h : (a == b) = true) :
    t.lookup a = t.lookup b := by
  unfold lookup
  induction t.index with
  | nil => rfl
  | cons e index ih =>
    rw [List.lookup_cons, List.lookup_cons, ih, BEq.congr_left h]

/-- **A key that differs from itself is never found.** -/
theorem lookup_eq_none_of_ne_self [PartialEquivBEq K] (t : Interner K)
    (h : (k == k) = false) : t.lookup k = none := by
  refine List.lookup_eq_none_iff.mpr fun e _ => ?_
  cases hk : k == e.1 with
  | false => simp [bne, hk]
  | true => cases h.symm.trans (BEq.trans hk (BEq.symm hk))

/-- A key that equals itself is found once it has been interned. -/
theorem lookup_intern_self (t : Interner K) (h : (k == k) = true) :
    (t.intern k).2.lookup k = some (t.intern k).1 := by
  cases hk : t.lookup k with
  | some i =>
    rw [intern_of_lookup hk]
    exact hk
  | none => rw [intern_of_lookup_none hk, lookup_withKey, if_pos h]

end Interner

namespace KeyedGraph

variable {K : Type} {g : KeyedGraph K} {a b k : K} {u v : Nat}

/-! ## More vertices -/

/-- The graph with more vertices, in the given order. -/
def withVertices (g : KeyedGraph K) (ks : List K) : KeyedGraph K := ks.foldl withVertex g

theorem keys_withVertices (g : KeyedGraph K) (ks : List K) :
    (g.withVertices ks).keys = g.keys ++ ks := by
  induction ks generalizing g with
  | nil => exact (List.append_nil _).symm
  | cons k ks ih =>
    show ((g.withVertex k).withVertices ks).keys = _
    rw [ih, keys_withVertex, List.append_assoc, List.singleton_append]

theorem prefix_withVertices (g : KeyedGraph K) (ks : List K) :
    g.ids.keys.toList <+: (g.withVertices ks).ids.keys.toList :=
  ⟨ks, (keys_withVertices g ks).symm⟩

theorem successors_withVertices (g : KeyedGraph K) (ks : List K) :
    (g.withVertices ks).successors = g.successors := by
  induction ks generalizing g with
  | nil => rfl
  | cons k ks ih => exact (ih (g.withVertex k)).trans (successors_withVertex g k)

/-- New vertices have no edges. -/
theorem lists_withVertices (g : KeyedGraph K) (ks : List K) :
    (g.withVertices ks).lists.toList = g.lists.toList ++ List.replicate ks.length [] := by
  induction ks generalizing g with
  | nil => exact (List.append_nil _).symm
  | cons k ks ih =>
    show ((g.withVertex k).withVertices ks).lists.toList = _
    rw [ih]
    show (g.lists.push []).toList ++ _ = _
    rw [Array.toList_push, List.append_assoc, List.singleton_append, List.length_cons,
      List.replicate_succ]

/-- A new edge is one more entry at the end of one list. -/
theorem lists_withEdge (g : KeyedGraph K) (u v : Nat) :
    (g.withEdge u v).lists.toList = g.lists.toList.modify u (· ++ [(v : Int)]) := by
  show (g.lists.setIfInBounds u (g.successors u ++ [(v : Int)])).toList = _
  rw [Array.toList_setIfInBounds, successors_natCast, List.modify_eq_set,
    Array.getD_eq_getD_getElem?, Array.getElem?_toList]
  rfl

variable [BEq K]

/-! ## What a call for an edge adds -/

/-- **The keys that a call for an edge makes vertices**, in their order. -/
def freshKeys (g : KeyedGraph K) (a b : K) : List K :=
  match g.ids.lookup a, g.ids.lookup b with
  | some _, some _ => []
  | some _, none => [b]
  | none, some _ => [a]
  | none, none => if b == a then [a] else [a, b]

/-- **The numbers between which a call for an edge puts it.** -/
def endNumbers (g : KeyedGraph K) (a b : K) : Nat × Nat :=
  match g.ids.lookup a, g.ids.lookup b with
  | some u, some v => (u, v)
  | some u, none => (u, g.order)
  | none, some v => (g.order, v)
  | none, none => if b == a then (g.order, g.order) else (g.order, g.order + 1)

/-- **An edge is there already only if both its keys are vertices**: a number that is new has
no edges, and no edge leads to it. -/
theorem WellFormed.mem_endNumbers_iff (h : g.WellFormed) (a b : K) :
    ((g.endNumbers a b).2 : Int) ∈ g.successors (g.endNumbers a b).1 ↔
      ∃ i j : Nat, g.ids.lookup a = some i ∧ g.ids.lookup b = some j ∧
        (j : Int) ∈ g.successors i := by
  constructor
  · intro hmem
    obtain ⟨⟨-, hu⟩, ⟨-, hv⟩⟩ := h.isVertex_of_mem hmem
    unfold endNumbers at hu hv hmem
    cases ha : g.ids.lookup a with
    | some i =>
      cases hb : g.ids.lookup b with
      | some j =>
        rw [ha, hb] at hmem
        exact ⟨i, j, rfl, rfl, hmem⟩
      | none =>
        rw [ha, hb] at hv
        exact absurd hv (lt_irrefl _)
    | none =>
      rw [ha] at hu
      cases hb : g.ids.lookup b with
      | some j =>
        rw [hb] at hu
        exact absurd hu (lt_irrefl _)
      | none =>
        rw [hb] at hu
        dsimp only at hu
        split at hu <;> exact absurd hu (lt_irrefl _)
  · rintro ⟨i, j, ha, hb, hmem⟩
    unfold endNumbers
    rw [ha, hb]
    exact hmem

section Comparable

variable [PartialEquivBEq K]

/-- **Making both ends vertices**, one after the other. -/
theorem WellFormed.addVertex_addVertex (h : g.WellFormed) (a b : K) :
    (g.addVertex a).1 = (g.endNumbers a b).1 ∧
      (g.addVertex a).2.addVertex b =
        ((g.endNumbers a b).2, g.withVertices (g.freshKeys a b)) := by
  unfold endNumbers freshKeys
  cases ha : g.ids.lookup a with
  | some u =>
    rw [h.addVertex_of_lookup ha]
    cases hb : g.ids.lookup b with
    | some v => exact ⟨rfl, h.addVertex_of_lookup hb⟩
    | none => exact ⟨rfl, h.addVertex_of_lookup_none hb⟩
  | none =>
    rw [h.addVertex_of_lookup_none ha]
    have hr := h.withVertex ha
    have hlookup : (g.withVertex a).ids.lookup b =
        if b == a then some g.order else g.ids.lookup b := Interner.lookup_withKey g.ids a b
    cases hba : b == a with
    | true =>
      -- the target is the vertex that the source has just become
      have hb : g.ids.lookup b = none := (g.ids.lookup_congr hba).trans ha
      rw [hba, if_pos rfl] at hlookup
      rw [hb]
      exact ⟨rfl, hr.addVertex_of_lookup hlookup⟩
    | false =>
      rw [hba, if_neg Bool.false_ne_true] at hlookup
      cases hb : g.ids.lookup b with
      | some v => exact ⟨rfl, hr.addVertex_of_lookup (hlookup.trans hb)⟩
      | none =>
        refine ⟨rfl, (hr.addVertex_of_lookup_none (hlookup.trans hb)).trans ?_⟩
        rw [order_withVertex]
        rfl

/-- **A call for an edge in one equation.** It is refused, and changes nothing, if the edge is
there already; otherwise it adds the keys that are no vertices yet, and then the edge. -/
theorem WellFormed.addEdge_eq_growth (h : g.WellFormed) (a b : K) :
    g.addEdge a b =
      if ((g.endNumbers a b).2 : Int) ∈ g.successors (g.endNumbers a b).1 then
        (.error (.duplicateEdge a b), g)
      else
        (.ok (), (g.withVertices (g.freshKeys a b)).withEdge (g.endNumbers a b).1
          (g.endNumbers a b).2) := by
  obtain ⟨hu, hv⟩ := h.addVertex_addVertex a b
  rw [KeyedGraph.addEdge_eq, hu, hv]
  dsimp only
  rw [successors_withVertices]
  by_cases hmem : ((g.endNumbers a b).2 : Int) ∈ g.successors (g.endNumbers a b).1
  · -- both keys are vertices, so none is fresh
    have hnone : g.freshKeys a b = [] := by
      obtain ⟨i, j, ha, hb, -⟩ := (h.mem_endNumbers_iff a b).mp hmem
      unfold freshKeys
      rw [ha, hb]
    rw [if_pos hmem, if_pos hmem, hnone]
    rfl
  · rw [if_neg hmem, if_neg hmem]

/-- The graph with the ends of an edge for vertices is well-formed. -/
theorem WellFormed.withVertices_freshKeys (h : g.WellFormed) (a b : K) :
    (g.withVertices (g.freshKeys a b)).WellFormed := by
  have hr := ((h.addVertex a).1.addVertex b).1
  rw [(h.addVertex_addVertex a b).2] at hr
  exact hr

omit [PartialEquivBEq K] in
theorem length_freshKeys_le (g : KeyedGraph K) (a b : K) : (g.freshKeys a b).length ≤ 2 := by
  unfold freshKeys
  cases g.ids.lookup a <;> cases g.ids.lookup b <;> cases b == a <;> simp

/-! ## What a call for an edge leaves -/

/-- **How a graph grows by an edge** between two keys. -/
structure Grown (g r : KeyedGraph K) (a b : K) : Prop where
  /-- The new vertices follow the old ones. -/
  keys_eq : r.keys = g.keys ++ g.freshKeys a b
  /-- There are at most two of them. -/
  length_le : (g.freshKeys a b).length ≤ 2
  /-- The new vertices have no edges but the new one, which is the last of its source; all
  other lists are as before. -/
  lists_eq : r.lists.toList =
    (g.lists.toList ++ List.replicate (g.freshKeys a b).length []).modify (g.endNumbers a b).1
      (· ++ [((g.endNumbers a b).2 : Int)])
  /-- Every number in use keeps its key. -/
  key_kept : ∀ (w : Int) (k : K), g.ids.key? w = some k → r.ids.key? w = some k
  /-- Every key that has a number keeps it. -/
  lookup_kept : ∀ (k : K) (i : Nat), g.ids.lookup k = some i → r.ids.lookup k = some i
  /-- The edge starts at its source. -/
  source : (a == a) = true → r.ids.lookup a = some (g.endNumbers a b).1
  /-- The edge ends at its target. -/
  target : (b == b) = true → r.ids.lookup b = some (g.endNumbers a b).2
  /-- A source that differs from itself is a new vertex. -/
  fresh_source : (a == a) = false →
    g.order ≤ (g.endNumbers a b).1 ∧ r.ids.key? (g.endNumbers a b).1 = some a
  /-- A target that differs from itself is a new vertex, and another one than the source. -/
  fresh_target : (b == b) = false →
    g.order ≤ (g.endNumbers a b).2 ∧ (g.endNumbers a b).2 ≠ (g.endNumbers a b).1 ∧
      r.ids.key? (g.endNumbers a b).2 = some b

omit [BEq K] [PartialEquivBEq K] in
/-- The number of a new vertex stands for its key. -/
theorem key?_withVertices (g : KeyedGraph K) (ks : List K) (i : Nat) :
    (g.withVertices ks).ids.key? ((g.order + i : Nat) : Int) = ks[i]? := by
  rw [Interner.key?_natCast, ← Array.getElem?_toList]
  show (g.withVertices ks).keys[g.order + i]? = _
  have hlength : g.keys.length = g.order := Array.length_toList
  rw [keys_withVertices, ← hlength, List.getElem?_append_right (Nat.le_add_right _ _),
    Nat.add_sub_cancel_left]

/-- **Both ends are found once they are vertices**, if they equal themselves. -/
theorem WellFormed.lookup_ends (h : g.WellFormed) (a b : K) :
    ((a == a) = true →
        (g.withVertices (g.freshKeys a b)).ids.lookup a = some (g.endNumbers a b).1) ∧
      ((b == b) = true →
        (g.withVertices (g.freshKeys a b)).ids.lookup b = some (g.endNumbers a b).2) := by
  obtain ⟨hu, hv⟩ := h.addVertex_addVertex a b
  have hq := h.addVertex a
  constructor
  · intro hself
    have ha : (g.addVertex a).2.ids.lookup a = some (g.addVertex a).1 :=
      g.ids.lookup_intern_self hself
    -- the target comes after the source and does not change its number
    have hkept : ((g.addVertex a).2.addVertex b).2.ids.lookup a = some (g.addVertex a).1 :=
      hq.1.ids.lookup_of_extends (hq.1.addVertex b).1.ids (Interner.keys_prefix_intern _ b) ha
    rw [hv, hu] at hkept
    exact hkept
  · intro hself
    have hb : ((g.addVertex a).2.addVertex b).2.ids.lookup b =
        some ((g.addVertex a).2.addVertex b).1 :=
      (g.addVertex a).2.ids.lookup_intern_self hself
    rw [hv] at hb
    exact hb

/-- A source that differs from itself is the first of the new vertices. -/
theorem fresh_of_source_ne_self (g : KeyedGraph K) (b : K) (hne : (a == a) = false) :
    (g.endNumbers a b).1 = g.order ∧ (g.freshKeys a b)[0]? = some a := by
  unfold endNumbers freshKeys
  rw [g.ids.lookup_eq_none_of_ne_self hne]
  cases g.ids.lookup b <;> cases b == a <;> exact ⟨rfl, rfl⟩

/-- A target that differs from itself is a new vertex, and not the same as the source. -/
theorem WellFormed.fresh_of_target_ne_self (h : g.WellFormed) (a : K) (hne : (b == b) = false) :
    ∃ i, (g.endNumbers a b).2 = g.order + i ∧ (g.freshKeys a b)[i]? = some b ∧
      (g.endNumbers a b).2 ≠ (g.endNumbers a b).1 := by
  have hba : (b == a) = false := by
    cases hba : b == a with
    | false => rfl
    | true => exact (BEq.trans hba (BEq.symm hba)).symm.trans hne
  unfold endNumbers freshKeys
  rw [g.ids.lookup_eq_none_of_ne_self hne]
  cases ha : g.ids.lookup a with
  | some u => exact ⟨0, rfl, rfl, Nat.ne_of_gt (h.ids.lt_size ha)⟩
  | none =>
    rw [hba]
    exact ⟨1, rfl, rfl, Nat.succ_ne_self _⟩

/-- **An edge that is not there yet makes the graph grow by it.** -/
theorem WellFormed.grown (h : g.WellFormed) (a b : K) :
    Grown g ((g.withVertices (g.freshKeys a b)).withEdge (g.endNumbers a b).1
      (g.endNumbers a b).2) a b where
  keys_eq := keys_withVertices g _
  length_le := length_freshKeys_le g a b
  lists_eq := by rw [lists_withEdge, lists_withVertices]
  key_kept w k hk := by
    have hw : w < g.ids.size := ((g.ids.exists_key?_iff w).mp ⟨k, hk⟩).2
    exact (Interner.key?_of_extends (prefix_withVertices g _) hw).trans hk
  lookup_kept k i hk :=
    h.ids.lookup_of_extends (h.withVertices_freshKeys a b).ids (prefix_withVertices g _) hk
  source := (h.lookup_ends a b).1
  target := (h.lookup_ends a b).2
  fresh_source hne := by
    obtain ⟨hnumber, hkey⟩ := fresh_of_source_ne_self g b hne
    rw [hnumber]
    exact ⟨le_refl _, (key?_withVertices g _ 0).trans hkey⟩
  fresh_target hne := by
    obtain ⟨i, hnumber, hkey, hother⟩ := h.fresh_of_target_ne_self a hne
    refine ⟨hnumber ▸ Nat.le_add_right _ _, hother, ?_⟩
    rw [hnumber]
    exact (key?_withVertices g _ i).trans hkey

/-- **A call for an edge succeeds as a whole or changes nothing.** Take any sequence of calls
on a graph without vertices, and any two keys, whether or not they equal themselves. The call
for the edge between them fails exactly if both are vertices and the one is listed among the
successors of the other; it then says so, and leaves the very graph that it found. If it
succeeds, the list of its source has one more entry at its end and no other list changes;
every number keeps its key; and at most two vertices are added after the others, among them a
new one for each end that differs from itself. -/
theorem addEdge_atomic (cs : List (Call K)) (a b : K) :
    let g := replay ({} : KeyedGraph K) cs
    let r := (g.addEdge a b).2
    ((∃ e, (g.addEdge a b).1 = .error e) ↔
        ∃ i j : Nat, g.ids.lookup a = some i ∧ g.ids.lookup b = some j ∧
          (j : Int) ∈ g.successors i) ∧
      (∀ e, (g.addEdge a b).1 = .error e → e = .duplicateEdge a b ∧ r = g) ∧
      ((g.addEdge a b).1 = .ok () → Grown g r a b) := by
  intro g r
  have h : g.WellFormed := wellFormed_empty.replay cs
  have hcall := h.addEdge_eq_growth a b
  have hr : r = (g.addEdge a b).2 := rfl
  rw [← h.mem_endNumbers_iff]
  by_cases hmem : ((g.endNumbers a b).2 : Int) ∈ g.successors (g.endNumbers a b).1
  · rw [if_pos hmem] at hcall
    rw [hr, hcall]
    refine ⟨iff_of_true ⟨_, rfl⟩ hmem, fun e he => ⟨(Except.error.inj he).symm, rfl⟩, fun hok => ?_⟩
    cases hok
  · rw [if_neg hmem] at hcall
    rw [hr, hcall]
    refine ⟨iff_of_false ?_ hmem, fun e he => ?_, fun _ => h.grown a b⟩
    · rintro ⟨e, he⟩
      cases he
    · cases he

/-- With the edges from `0` to `1` and from what is no number to `1`, the edge from `-0` to
`1` is refused and nothing changes; an edge from what is no number to itself makes it a vertex
twice more. -/
theorem addEdge_atomic_floats :
    let nan : Float := 0 / 0
    let g := replay ({} : KeyedGraph Float) [.edge 0 1, .edge nan 1]
    PartialEquivBEq Float ∧
      ((∃ e, (g.addEdge (-0) 1).1 = .error e) ∧ (g.addEdge (-0) 1).2 = g) ∧
      (g.addEdge nan nan).1 = .ok () ∧
      (g.addEdge nan nan).2.keys.length = g.keys.length + 2 ∧
      (g.addEdge nan nan).2.lists.toList = [[1], [], [1], [4], []] := by
  intro nan g
  obtain ⟨hfails, hsame, -⟩ := addEdge_atomic [.edge 0 1, .edge nan 1] (-0) 1
  obtain ⟨hfails', -, hgrown⟩ := addEdge_atomic [.edge 0 1, .edge nan 1] nan nan
  have hzero : ∃ e, (g.addEdge (-0) 1).1 = .error e :=
    hfails.mpr ⟨0, 1, by decide +kernel, by decide +kernel, by decide +kernel⟩
  have hnan : g.ids.lookup nan = none := by decide +kernel
  have hok : (g.addEdge nan nan).1 = .ok () := by
    cases he : (g.addEdge nan nan).1 with
    | ok => rfl
    | error e =>
      obtain ⟨i, -, hi, -⟩ := hfails'.mp ⟨e, he⟩
      cases hnan.symm.trans hi
  have hgrowth : Grown g (g.addEdge nan nan).2 nan nan := hgrown hok
  have hfresh : (g.freshKeys nan nan).length = 2 := by decide +kernel
  have hends : g.endNumbers nan nan = (3, 4) := by decide +kernel
  have hlists : g.lists.toList = [[1], [], [1]] := by decide +kernel
  refine ⟨inferInstance, ⟨hzero, ?_⟩, hok, ?_, ?_⟩
  · obtain ⟨e, he⟩ := hzero
    exact (hsame e he).2
  · rw [hgrowth.keys_eq, List.length_append, hfresh]
  · rw [hgrowth.lists_eq, hfresh, hends, hlists]
    rfl

end Comparable

end KeyedGraph

end TopologicalOrder
