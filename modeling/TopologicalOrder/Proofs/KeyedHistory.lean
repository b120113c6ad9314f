import Mathlib
import TopologicalOrder.Keyed.Graph
import TopologicalOrder.Proofs.History
import TopologicalOrder.Proofs.Interning

/-!
# The history of a keyed graph

A keyed graph keeps three things in step: the numbers of its keys, the keys by number and
the successors of each number. What every such graph keeps to (`KeyedGraph.WellFormed`) is
the consistency of its interner, one list per key, and that the lists hold numbers in use
without repetition. Both operations preserve it, whether they succeed or not, for any
symmetric and transitive equality of keys.

For keys with lawful equality the numbers can be forgotten. What remains is the list of
the keys and, for each key, the list of the keys that its edges lead to
(`KeyedGraph.targets`). Making a key a vertex changes no list of targets; adding an edge
is refused exactly if its target is listed already, and otherwise puts it at the end
(`KeyedGraph.WellFormed.addEdge_eq`). From this follows what any sequence of calls leaves
behind: the keys in the order of their first mention (`KeyedGraph.keys_replay`), and the
targets of each key in the order of the accepted calls (`KeyedGraph.targets_replay`).
-/

namespace TopologicalOrder

namespace Interner

variable {K : Type} {t : Interner K} {k : K} {i : Nat} {v : Int}

theorem key?_natCast (t : Interner K) (i : Nat) : t.key? (i : Int) = t.keys[i]? :=
  if_pos (Int.natCast_nonneg i)

variable [BEq K]

theorem Consistent.lt_size [PartialEquivBEq K] (h : t.Consistent) (hk : t.lookup k = some i) :
    i < t.size := by
  rw [h.lookup_eq] at hk
  obtain ⟨hlt, -⟩ := Array.findIdx?_eq_some_iff_getElem.mp hk
  exact hlt

/-- **A number has the key whose number it is.** -/
theorem Consistent.key?_eq_some [LawfulBEq K] (h : t.Consistent) :
    t.key? v = some k ↔ ∃ i : Nat, v = i ∧ t.lookup k = some i := by
  constructor
  · intro hv
    have h0 : 0 ≤ v := by
      by_contra hneg
      rw [key?, if_neg hneg] at hv
      cases hv
    obtain ⟨i, rfl⟩ := Int.eq_ofNat_of_zero_le h0
    exact ⟨i, rfl, h.lookup_eq_some.mpr ((key?_natCast t i).symm.trans hv)⟩
  · rintro ⟨i, rfl, hi⟩
    rw [key?_natCast]
    exact h.lookup_eq_some.mp hi

end Interner

namespace KeyedGraph

variable {K : Type} {g : KeyedGraph K} {a b k : K} {i u v : Nat}

/-! ## One more vertex, one more edge -/

/-- The graph with one more vertex. -/
def withVertex (g : KeyedGraph K) (k : K) : KeyedGraph K :=
  { ids := g.ids.withKey k, lists := g.lists.push [] }

/-- The graph with one more edge between two numbers. -/
def withEdge (g : KeyedGraph K) (u v : Nat) : KeyedGraph K :=
  { g with lists := g.lists.setIfInBounds u (g.successors u ++ [(v : Int)]) }

@[simp] theorem order_withVertex (g : KeyedGraph K) (k : K) :
    (g.withVertex k).order = g.order + 1 :=
  Array.size_push k

@[simp] theorem keys_withVertex (g : KeyedGraph K) (k : K) :
    (g.withVertex k).keys = g.keys ++ [k] :=
  Array.toList_push

/-- A new vertex has no successors, and the others keep theirs. -/
@[simp] theorem successors_withVertex (g : KeyedGraph K) (k : K) :
    (g.withVertex k).successors = g.successors := by
  funext w
  show (if 0 ≤ w then (g.lists.push []).getD w.toNat [] else []) = _
  unfold successors
  rw [Array.getD_eq_getD_getElem?, Array.getD_eq_getD_getElem?, Array.getElem?_push]
  by_cases hw : w.toNat = g.lists.size
  · rw [if_pos hw, Array.getElem?_eq_none (Nat.le_of_eq hw.symm)]
    rfl
  · rw [if_neg hw]

theorem successors_natCast (g : KeyedGraph K) (i : Nat) :
    g.successors (i : Int) = g.lists.getD i [] :=
  if_pos (Int.natCast_nonneg i)

/-- Every number in use has a key. -/
theorem exists_key {w : Int} (hw : IsVertex g.order w) : ∃ a, g.ids.key? w = some a := by
  obtain ⟨h0, hlt⟩ := hw
  obtain ⟨i, rfl⟩ := Int.eq_ofNat_of_zero_le h0
  have hi : i < g.ids.keys.size := Int.ofNat_lt.mp hlt
  exact ⟨g.ids.keys[i], (Interner.key?_natCast g.ids i).trans (Array.getElem?_eq_getElem hi)⟩

/-- **Numbers in use are handed out as their keys.** -/
theorem mem_keysOf [Inhabited K] {ws : List Int} (hws : ∀ w ∈ ws, IsVertex g.order w) :
    a ∈ g.keysOf ws ↔ ∃ w ∈ ws, g.ids.key? w = some a := by
  refine List.mem_map.trans (exists_congr fun w => and_congr_right fun hw => ?_)
  obtain ⟨b, hb⟩ := exists_key (hws w hw)
  rw [hb, Option.getD_some, Option.some_inj]

/-- Numbers in use keep their keys when a vertex is added. -/
theorem keysOf_withVertex [Inhabited K] {ws : List Int} (hws : ∀ w ∈ ws, IsVertex g.order w)
    (k : K) : (g.withVertex k).keysOf ws = g.keysOf ws := by
  refine List.map_congr_left fun w hw => congrArg (Option.getD · default) ?_
  obtain ⟨h0, hlt⟩ := hws w hw
  obtain ⟨i, rfl⟩ := Int.eq_ofNat_of_zero_le h0
  rw [Interner.key?_natCast, Interner.key?_natCast]
  show (g.ids.keys.push k)[i]? = _
  rw [Array.getElem?_push, if_neg]
  exact Nat.ne_of_lt (Int.ofNat_lt.mp hlt)

variable [BEq K]

/-! ## Well-formed keyed graphs -/

/-- **What every keyed graph keeps to.** -/
structure WellFormed (g : KeyedGraph K) : Prop where
  /-- Keys and numbers are in step. -/
  ids : g.ids.Consistent
  /-- There is one list per key. -/
  size_lists : g.lists.size = g.order
  /-- A list holds numbers in use, none of them twice. -/
  list_ok : ∀ us ∈ g.lists.toList, (∀ w ∈ us, IsVertex g.order w) ∧ us.Nodup

theorem wellFormed_empty : ({} : KeyedGraph K).WellFormed where
  ids := Interner.consistent_empty
  size_lists := rfl
  list_ok _ hus := absurd hus List.not_mem_nil

/-- **What the list of a number holds**, whether the number is in use or not. -/
theorem WellFormed.successors_ok (h : g.WellFormed) (w : Int) :
    (∀ x ∈ g.successors w, IsVertex g.order x) ∧ (g.successors w).Nodup := by
  have hempty : (∀ x ∈ ([] : List Int), IsVertex g.order x) ∧ ([] : List Int).Nodup :=
    ⟨List.forall_mem_nil _, List.nodup_nil⟩
  unfold successors
  split
  · rw [Array.getD_eq_getD_getElem?]
    cases hw : g.lists[w.toNat]? with
    | none => exact hempty
    | some us => exact h.list_ok us (Array.mem_toList_iff.mpr (Array.mem_of_getElem? hw))
  · exact hempty

/-- The ends of an edge are numbers in use. -/
theorem WellFormed.isVertex_of_mem (h : g.WellFormed) {w x : Int} (hx : x ∈ g.successors w) :
    IsVertex g.order w ∧ IsVertex g.order x := by
  refine ⟨?_, (h.successors_ok w).1 x hx⟩
  by_contra hw
  have hnil : g.successors w = [] := by
    unfold successors
    split
    · rename_i h0
      rw [Array.getD_eq_getD_getElem?, Array.getElem?_eq_none]
      · rfl
      · rw [h.size_lists]
        exact Nat.le_of_not_lt fun hlt => hw ⟨h0, by omega⟩
    · rfl
  rw [hnil] at hx
  exact List.not_mem_nil hx

theorem WellFormed.successors_withEdge (h : g.WellFormed) (hu : u < g.order) (v : Nat) (w : Int) :
    (g.withEdge u v).successors w =
      if w = u then g.successors u ++ [(v : Int)] else g.successors w := by
  show (if 0 ≤ w then (g.lists.setIfInBounds u _).getD w.toNat [] else []) = _
  by_cases h0 : 0 ≤ w
  · obtain ⟨i, rfl⟩ := Int.eq_ofNat_of_zero_le h0
    rw [if_pos h0, Int.toNat_natCast, Array.getD_eq_getD_getElem?, Array.getElem?_setIfInBounds]
    by_cases hi : u = i
    · subst hi
      rw [if_pos rfl, if_pos rfl, if_pos (by rw [h.size_lists]; exact hu)]
      rfl
    · have hne : ¬ (i : Int) = u := fun heq => hi (Int.ofNat_inj.mp heq).symm
      rw [if_neg hi, if_neg hne, ← Array.getD_eq_getD_getElem?, successors_natCast]
  · have hne : ¬ w = u := fun heq => h0 (heq ▸ Int.natCast_nonneg u)
    rw [if_neg h0, if_neg hne, successors, if_neg h0]

/-- A new edge between numbers in use keeps a graph well-formed. -/
theorem WellFormed.withEdge (h : g.WellFormed) (hv : v < g.order)
    (hnew : (v : Int) ∉ g.successors u) : (g.withEdge u v).WellFormed where
  ids := h.ids
  size_lists := Array.size_setIfInBounds.trans h.size_lists
  list_ok us hus := by
    change us ∈ (g.lists.setIfInBounds u _).toList at hus
    rw [Array.toList_setIfInBounds] at hus
    rcases List.mem_or_eq_of_mem_set hus with hold | rfl
    · exact h.list_ok us hold
    · obtain ⟨hvertices, hnodup⟩ := h.successors_ok u
      refine ⟨fun w hw => ?_, ?_⟩
      · rcases List.mem_append.mp hw with hw | hw
        · exact hvertices w hw
        · rw [List.mem_singleton.mp hw]
          exact ⟨Int.natCast_nonneg v, Int.ofNat_lt.mpr hv⟩
      · rw [← List.concat_eq_append]
        exact hnodup.concat hnew

/-! ## One operation -/

/-- **A key that is no vertex becomes the next one.** -/
theorem WellFormed.addVertex_of_lookup_none (h : g.WellFormed) (hk : g.ids.lookup k = none) :
    g.addVertex k = (g.order, g.withVertex k) := by
  unfold addVertex
  rw [Interner.intern_of_lookup_none hk]
  show (g.order, KeyedGraph.mk _ (if g.order = g.lists.size then _ else g.lists)) = _
  rw [if_pos h.size_lists.symm]
  rfl

section Comparable

variable [PartialEquivBEq K]

/-- **A key that is a vertex stays the vertex it is.** -/
theorem WellFormed.addVertex_of_lookup (h : g.WellFormed) (hk : g.ids.lookup k = some i) :
    g.addVertex k = (i, g) := by
  have hlt : i < g.lists.size := by rw [h.size_lists]; exact h.ids.lt_size hk
  unfold addVertex
  rw [Interner.intern_of_lookup hk]
  show (i, KeyedGraph.mk g.ids (if i = g.lists.size then _ else g.lists)) = _
  rw [if_neg (Nat.ne_of_lt hlt)]

theorem WellFormed.withVertex (h : g.WellFormed) (hk : g.ids.lookup k = none) :
    (g.withVertex k).WellFormed where
  ids := h.ids.withKey hk
  size_lists := by
    rw [order_withVertex, ← h.size_lists]
    exact Array.size_push []
  list_ok us hus := by
    rw [order_withVertex]
    change us ∈ (g.lists.push []).toList at hus
    rw [Array.toList_push] at hus
    rcases List.mem_append.mp hus with hold | hnew
    · obtain ⟨hvertices, hnodup⟩ := h.list_ok us hold
      refine ⟨fun w hw => ⟨(hvertices w hw).1, ?_⟩, hnodup⟩
      exact Int.lt_trans (hvertices w hw).2 (Int.ofNat_lt.mpr (Nat.lt_succ_self _))
    · obtain rfl := List.mem_singleton.mp hnew
      exact ⟨List.forall_mem_nil _, List.nodup_nil⟩

/-- **Making a key a vertex** keeps a graph well-formed, and the number that it answers is
in use afterwards. -/
theorem WellFormed.addVertex (h : g.WellFormed) (k : K) :
    (g.addVertex k).2.WellFormed ∧ (g.addVertex k).1 < (g.addVertex k).2.order := by
  cases hk : g.ids.lookup k with
  | some i =>
    rw [h.addVertex_of_lookup hk]
    exact ⟨h, h.ids.lt_size hk⟩
  | none =>
    rw [h.addVertex_of_lookup_none hk, order_withVertex]
    exact ⟨h.withVertex hk, Nat.lt_succ_self _⟩

theorem WellFormed.successors_addVertex (h : g.WellFormed) (k : K) :
    (g.addVertex k).2.successors = g.successors := by
  cases hk : g.ids.lookup k with
  | some i => rw [h.addVertex_of_lookup hk]
  | none => rw [h.addVertex_of_lookup_none hk, successors_withVertex]

omit [PartialEquivBEq K] in
/-- **Adding an edge**, once both keys are vertices. -/
theorem addEdge_eq (g : KeyedGraph K) (a b : K) :
    let u := (g.addVertex a).1
    let v := ((g.addVertex a).2.addVertex b).1
    let r := ((g.addVertex a).2.addVertex b).2
    g.addEdge a b =
      if (v : Int) ∈ r.successors u then (.error (.duplicateEdge a b), r)
      else (.ok (), r.withEdge u v) := by
  intro u v r
  show (if (r.successors u).contains (v : Int) = true then _ else _) = _
  simp only [List.contains_iff_mem]
  rfl

/-- Adding an edge between two keys that are vertices. -/
theorem WellFormed.addEdge_of_lookup (h : g.WellFormed) (ha : g.ids.lookup a = some u)
    (hb : g.ids.lookup b = some v) :
    g.addEdge a b =
      if (v : Int) ∈ g.successors u then (.error (.duplicateEdge a b), g)
      else (.ok (), g.withEdge u v) := by
  rw [addEdge_eq, h.addVertex_of_lookup ha]
  dsimp only
  rw [h.addVertex_of_lookup hb]

theorem WellFormed.addEdge (h : g.WellFormed) (a b : K) : (g.addEdge a b).2.WellFormed := by
  obtain ⟨hb, hv⟩ := (h.addVertex a).1.addVertex b
  rw [addEdge_eq]
  split
  · exact hb
  · rename_i hnew
    exact hb.withEdge hv hnew

end Comparable

/-! ## Sequences of calls -/

/-- **A call on a keyed graph.** -/
inductive Call (K : Type)
  /-- Make a key a vertex. -/
  | vertex (k : K)
  /-- Add an edge. -/
  | edge (source target : K)

/-- The keys that a call mentions. -/
def Call.mentions : Call K → List K
  | .vertex k => [k]
  | .edge a b => [a, b]

/-- The edge that a call asks for, if it does. -/
def Call.edge? : Call K → Option (K × K)
  | .vertex _ => none
  | .edge a b => some (a, b)

/-- **Makes a call**: what it answers, and the graph that it leaves. -/
def call (g : KeyedGraph K) : Call K → Except (KeyedError K) Unit × KeyedGraph K
  | .vertex k => (.ok (), (g.addVertex k).2)
  | .edge a b => g.addEdge a b

/-- The graph that a sequence of calls leaves. -/
def replay (g : KeyedGraph K) (cs : List (Call K)) : KeyedGraph K :=
  cs.foldl (fun g c => (g.call c).2) g

/-- The edge that a call has added, if it has. -/
def added (g : KeyedGraph K) (c : Call K) : List (K × K) :=
  match (g.call c).1 with
  | .ok () => c.edge?.toList
  | .error _ => []

/-- **The edges that were accepted** in a sequence of calls, in the order of the calls. -/
def accepted (g : KeyedGraph K) : List (Call K) → List (K × K)
  | [] => []
  | c :: cs => g.added c ++ (g.call c).2.accepted cs

theorem replay_concat (g : KeyedGraph K) (cs : List (Call K)) (c : Call K) :
    g.replay (cs ++ [c]) = ((g.replay cs).call c).2 := by
  simp only [replay, List.foldl_append, List.foldl_cons, List.foldl_nil]

theorem accepted_concat (g : KeyedGraph K) (cs : List (Call K)) (c : Call K) :
    g.accepted (cs ++ [c]) = g.accepted cs ++ (g.replay cs).added c := by
  induction cs generalizing g with
  | nil =>
    show g.added c ++ [] = [] ++ g.added c
    rw [List.append_nil, List.nil_append]
  | cons d cs ih =>
    show g.added d ++ (g.call d).2.accepted (cs ++ [c]) = g.added d ++ _ ++ _
    rw [ih, List.append_assoc]
    rfl

/-- **Every keyed graph is well-formed**, whatever calls were made on it. -/
theorem WellFormed.replay [PartialEquivBEq K] (h : g.WellFormed) (cs : List (Call K)) :
    (g.replay cs).WellFormed := by
  induction cs generalizing g with
  | nil => exact h
  | cons c cs ih =>
    refine ih (g := (g.call c).2) ?_
    cases c with
    | vertex k => exact (h.addVertex k).1
    | edge a b => exact h.addEdge a b

/-- Mentioning keys adds no edge. -/
theorem WellFormed.successors_replay_vertices [PartialEquivBEq K] (h : g.WellFormed)
    (ks : List K) : (g.replay (ks.map .vertex)).successors = g.successors := by
  induction ks generalizing g with
  | nil => rfl
  | cons k ks ih => exact (ih (h.addVertex k).1).trans (h.successors_addVertex k)

/-! ## Targets -/

variable [Inhabited K]

/-- **The keys that the edges of a key lead to.** What is no vertex has none. -/
def targets (g : KeyedGraph K) (k : K) : List K :=
  match g.ids.lookup k with
  | none => []
  | some i => g.keysOf (g.successors i)

theorem targets_of_lookup (hk : g.ids.lookup k = some i) :
    g.targets k = g.keysOf (g.successors i) := by
  unfold targets
  rw [hk]

theorem targets_of_lookup_none (hk : g.ids.lookup k = none) : g.targets k = [] := by
  unfold targets
  rw [hk]

section Lawful

variable [LawfulBEq K]

omit [Inhabited K] in
theorem WellFormed.mem_keys (h : g.WellFormed) :
    k ∈ g.keys ↔ ∃ i, g.ids.lookup k = some i := by
  show k ∈ g.ids.keys.toList ↔ _
  simp only [List.mem_iff_getElem?, Array.getElem?_toList, h.ids.lookup_eq_some]

/-- **The successors of a key are its targets**, if it is a vertex. -/
theorem WellFormed.successorKeys_eq (h : g.WellFormed) (k : K) :
    (k ∈ g.keys → g.successorKeys k = .ok (g.targets k)) ∧
      (k ∉ g.keys → g.successorKeys k = .error (.unknownKey k)) := by
  rw [h.mem_keys]
  unfold successorKeys targets
  cases g.ids.lookup k with
  | none => simp
  | some i => simp

/-- An edge leads from key to key as it does from number to number. -/
theorem WellFormed.mem_targets (h : g.WellFormed) (ha : g.ids.lookup a = some u)
    (hb : g.ids.lookup b = some v) : b ∈ g.targets a ↔ (v : Int) ∈ g.successors u := by
  rw [targets_of_lookup ha, mem_keysOf (h.successors_ok u).1]
  simp only [h.ids.key?_eq_some]
  constructor
  · rintro ⟨w, hw, i, rfl, hi⟩
    obtain rfl : v = i := Option.some.inj (hb.symm.trans hi)
    exact hw
  · intro hv
    exact ⟨v, hv, v, rfl, hb⟩

/-- What is listed as a target is a vertex. -/
theorem WellFormed.lookup_of_mem_targets (h : g.WellFormed) (hb : b ∈ g.targets a) :
    ∃ u v, g.ids.lookup a = some u ∧ g.ids.lookup b = some v := by
  cases ha : g.ids.lookup a with
  | none =>
    rw [targets_of_lookup_none ha] at hb
    exact absurd hb List.not_mem_nil
  | some u =>
    rw [targets_of_lookup ha, mem_keysOf (h.successors_ok u).1] at hb
    obtain ⟨w, -, hw⟩ := hb
    obtain ⟨v, -, hv⟩ := h.ids.key?_eq_some.mp hw
    exact ⟨u, v, rfl, hv⟩

/-- **A new vertex changes no list of targets.** -/
theorem WellFormed.targets_withVertex (h : g.WellFormed) (hk : g.ids.lookup k = none) (a : K) :
    (g.withVertex k).targets a = g.targets a := by
  have hlookup : (g.withVertex k).ids.lookup a =
      if a == k then some g.order else g.ids.lookup a := by
    show List.lookup a ((k, g.order) :: g.ids.index) = _
    rw [List.lookup_cons]
    cases a == k <;> rfl
  by_cases hak : a = k
  · -- the new number has no list yet
    subst hak
    rw [if_pos (beq_self_eq_true a)] at hlookup
    rw [targets_of_lookup hlookup, targets_of_lookup_none hk, successors_withVertex,
      successors_natCast, Array.getD_eq_getD_getElem?,
      Array.getElem?_eq_none (Nat.le_of_eq h.size_lists)]
    rfl
  · rw [if_neg fun heq => hak (eq_of_beq heq)] at hlookup
    cases ha : g.ids.lookup a with
    | none =>
      rw [targets_of_lookup_none ha, targets_of_lookup_none (hlookup.trans ha)]
    | some u =>
      rw [targets_of_lookup ha, targets_of_lookup (hlookup.trans ha), successors_withVertex]
      exact keysOf_withVertex (h.successors_ok u).1 k

/-- **What making a key a vertex does**: the key has the answered number, it is listed if it
was not, and no targets change. -/
theorem WellFormed.addVertex_eq (h : g.WellFormed) (k : K) :
    (g.addVertex k).2.ids.lookup k = some (g.addVertex k).1 ∧
      (∀ a i, g.ids.lookup a = some i → (g.addVertex k).2.ids.lookup a = some i) ∧
      (g.addVertex k).2.keys = (if k ∈ g.keys then g.keys else g.keys ++ [k]) ∧
      ∀ a, (g.addVertex k).2.targets a = g.targets a := by
  cases hk : g.ids.lookup k with
  | some i =>
    have hmem : k ∈ g.keys := h.mem_keys.mpr ⟨i, hk⟩
    rw [h.addVertex_of_lookup hk, if_pos hmem]
    exact ⟨hk, fun _ _ ha => ha, rfl, fun _ => rfl⟩
  | none =>
    have hmem : k ∉ g.keys := fun hmem => by
      obtain ⟨i, hi⟩ := h.mem_keys.mp hmem
      cases hk.symm.trans hi
    have hr := h.withVertex hk
    rw [h.addVertex_of_lookup_none hk, if_neg hmem]
    refine ⟨?_, fun a i ha => ?_, keys_withVertex g k, h.targets_withVertex hk⟩
    · show List.lookup k ((k, g.order) :: g.ids.index) = _
      rw [List.lookup_cons_self]
    · rw [hr.ids.lookup_eq_some]
      show (g.ids.keys.push k)[i]? = _
      rw [Array.getElem?_push]
      show (if i = g.ids.size then _ else _) = _
      rw [if_neg (Nat.ne_of_lt (h.ids.lt_size ha))]
      exact h.ids.lookup_eq_some.mp ha

/-- A new edge is the last of its source and changes no other list. -/
theorem WellFormed.targets_withEdge (h : g.WellFormed) (ha : g.ids.lookup a = some u)
    (hb : g.ids.lookup b = some v) (k : K) :
    (g.withEdge u v).targets k = if k == a then g.targets a ++ [b] else g.targets k := by
  have hu : u < g.order := h.ids.lt_size ha
  have hkey : g.ids.key? (v : Int) = some b := h.ids.key?_eq_some.mpr ⟨v, rfl, hb⟩
  by_cases hka : k = a
  · subst hka
    rw [if_pos (beq_self_eq_true k), targets_of_lookup (g := g.withEdge u v) ha,
      targets_of_lookup ha, h.successors_withEdge hu, if_pos rfl]
    show (g.successors u ++ [(v : Int)]).map (fun w => (g.ids.key? w).getD default) = _
    rw [List.map_append, List.map_singleton, hkey]
    rfl
  · rw [if_neg fun heq => hka (eq_of_beq heq)]
    cases hk : g.ids.lookup k with
    | none => rw [targets_of_lookup_none hk, targets_of_lookup_none (g := g.withEdge u v) hk]
    | some i =>
      have hiu : ¬ (i : Int) = u := by
        intro hiu
        obtain rfl := Int.ofNat_inj.mp hiu
        have hsame := (h.ids.lookup_eq_some.mp hk).symm.trans (h.ids.lookup_eq_some.mp ha)
        exact hka (Option.some.inj hsame)
      rw [targets_of_lookup hk, targets_of_lookup (g := g.withEdge u v) hk,
        h.successors_withEdge hu, if_neg hiu]
      rfl

/-- **What adding an edge does.** It is refused exactly if the target is listed already;
otherwise the target goes to the end of the list, and no other list changes. Either way
both keys are vertices afterwards. -/
theorem WellFormed.addEdge_eq (h : g.WellFormed) (a b : K) :
    (g.addEdge a b).1 =
        (if b ∈ g.targets a then .error (.duplicateEdge a b) else .ok ()) ∧
      (g.addEdge a b).2.keys = ((g.addVertex a).2.addVertex b).2.keys ∧
      ∀ k, (g.addEdge a b).2.targets k =
        if k == a ∧ b ∉ g.targets a then g.targets a ++ [b] else g.targets k := by
  have hr := (h.addVertex a).1
  have hq := (hr.addVertex b).1
  obtain ⟨ha, -, -, htargets⟩ := h.addVertex_eq a
  obtain ⟨hb, hkept, -, htargets'⟩ := hr.addVertex_eq b
  have hmem := hq.mem_targets (hkept a _ ha) hb
  simp only [htargets', htargets] at hmem
  rw [KeyedGraph.addEdge_eq]
  by_cases hold : b ∈ g.targets a
  · rw [if_pos (hmem.mp hold), if_pos hold]
    refine ⟨rfl, rfl, fun k => ?_⟩
    rw [if_neg fun hcase => hcase.2 hold]
    exact (htargets' k).trans (htargets k)
  · rw [if_neg fun hv => hold (hmem.mpr hv), if_neg hold]
    refine ⟨rfl, rfl, fun k => ?_⟩
    rw [hq.targets_withEdge (hkept a _ ha) hb, htargets', htargets', htargets, htargets]
    simp only [hold, not_false_eq_true, and_true]

/-! ## What a sequence of calls leaves -/

theorem WellFormed.added_edge (h : g.WellFormed) (a b : K) :
    g.added (.edge a b) = if b ∈ g.targets a then [] else [(a, b)] := by
  unfold added call
  dsimp only
  rw [(h.addEdge_eq a b).1]
  by_cases hold : b ∈ g.targets a
  · rw [if_pos hold, if_pos hold]
  · rw [if_neg hold, if_neg hold]
    rfl

/-- **The keys are the history of mentions**: each key stands where it was first mentioned. -/
theorem keys_replay (cs : List (Call K)) :
    (replay ({} : KeyedGraph K) cs).keys = (cs.flatMap Call.mentions).eraseDups := by
  induction cs using List.reverseRecOn with
  | nil => rfl
  | append_singleton cs c ih =>
    have h : (replay ({} : KeyedGraph K) cs).WellFormed := wellFormed_empty.replay cs
    rw [replay_concat, List.flatMap_append, List.flatMap_singleton]
    cases c with
    | vertex k =>
      show ((replay {} cs).addVertex k).2.keys = (_ ++ [k]).eraseDups
      rw [(h.addVertex_eq k).2.2.1, eraseDups_concat, ih]
    | edge a b =>
      show ((replay {} cs).addEdge a b).2.keys = (_ ++ [a, b]).eraseDups
      have hsplit : ∀ l : List K, l ++ [a, b] = l ++ [a] ++ [b] := fun l => by simp
      rw [(h.addEdge_eq a b).2.1, ((h.addVertex a).1.addVertex_eq b).2.2.1,
        (h.addVertex_eq a).2.2.1, hsplit, eraseDups_concat _ b, eraseDups_concat _ a, ih]

/-- **The targets are the history of the accepted calls.** -/
theorem targets_replay (cs : List (Call K)) (k : K) :
    (replay ({} : KeyedGraph K) cs).targets k =
      ((accepted {} cs).filter (·.1 == k)).map Prod.snd := by
  induction cs using List.reverseRecOn with
  | nil => rfl
  | append_singleton cs c ih =>
    have h : (replay ({} : KeyedGraph K) cs).WellFormed := wellFormed_empty.replay cs
    rw [replay_concat, accepted_concat, List.filter_append, List.map_append, ← ih]
    cases c with
    | vertex a =>
      show ((replay {} cs).addVertex a).2.targets k = _ ++ []
      rw [(h.addVertex_eq a).2.2.2, List.append_nil]
    | edge a b =>
      show ((replay {} cs).addEdge a b).2.targets k = _
      rw [(h.addEdge_eq a b).2.2, h.added_edge]
      by_cases hold : b ∈ (replay {} cs).targets a
      · simp [hold]
      · by_cases hka : k = a
        · subst hka
          simp [hold]
        · have hak : ¬ a = k := fun heq => hka heq.symm
          simp [hold, hka, hak]

theorem mem_accepted {cs : List (Call K)} :
    (a, b) ∈ accepted {} cs ↔ b ∈ (replay ({} : KeyedGraph K) cs).targets a := by
  rw [targets_replay]
  simp only [List.mem_map, List.mem_filter, beq_iff_eq]
  constructor
  · intro hmem
    exact ⟨(a, b), ⟨hmem, rfl⟩, rfl⟩
  · rintro ⟨⟨c, d⟩, ⟨hmem, rfl⟩, rfl⟩
    exact hmem

/-- **An edge is accepted when it is first asked for**, and refused ever after. -/
theorem accepted_eq (cs : List (Call K)) :
    accepted ({} : KeyedGraph K) cs = (cs.filterMap Call.edge?).eraseDups := by
  induction cs using List.reverseRecOn with
  | nil => rfl
  | append_singleton cs c ih =>
    have h : (replay ({} : KeyedGraph K) cs).WellFormed := wellFormed_empty.replay cs
    rw [accepted_concat, List.filterMap_append]
    cases c with
    | vertex k =>
      show accepted {} cs ++ [] = (_ ++ []).eraseDups
      rw [List.append_nil, List.append_nil, ih]
    | edge a b =>
      show accepted {} cs ++ _ = (_ ++ [(a, b)]).eraseDups
      rw [h.added_edge, eraseDups_concat, ← ih]
      by_cases hold : (a, b) ∈ accepted {} cs
      · rw [if_pos hold, if_pos (mem_accepted.mp hold), List.append_nil]
      · rw [if_neg hold, if_neg fun hmem => hold (mem_accepted.mpr hmem)]

end Lawful

end KeyedGraph

end TopologicalOrder
