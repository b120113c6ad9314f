import Mathlib
import TopologicalOrder.Keyed.Import
import TopologicalOrder.Proofs.KeyedGrowth
import TopologicalOrder.Proofs.Renaming

/-!
# Importing a graph

The graph to import is a map of maps, and neither map has an order. What is made of it does
not depend on how the two happen to be listed, because both are sorted before they are added,
and keys that differ can be sorted in one way only (`KeyedGraph.addSources_of_reordered`).

That the import succeeds rests on the keys being different. The vertices are added first, so
that every source has a number and no edges when its turn comes
(`KeyedGraph.WellFormed.exists_addSources`), and its targets, being different, have different
numbers, so that none of its edges is a second copy (`KeyedGraph.WellFormed.exists_addTargets`).
A target that is no vertex becomes one on the way.

Two maps may be the same without listing the same keys, since keys that are equal need not be
the same, as the two zeros are not. Then the graphs correspond key by key
(`KeyedGraph.Corresponds.addSources`), and are sorted alike.
-/

namespace TopologicalOrder

variable {K : Type} [BEq K]

namespace SourceGraph

/-! ## Maps of maps -/

/-- **A map of maps as it may be listed**: no two of its keys are equal, nor are two targets of
one key; and no key or target differs from itself. -/
structure Listing (m : List (K × List K)) : Prop where
  /-- The keys equal themselves. -/
  keys_self : ∀ x ∈ m, (x.1 == x.1) = true
  /-- No two keys are equal. -/
  keys_distinct : (m.map Prod.fst).Pairwise fun a b => (a == b) = false
  /-- The targets equal themselves. -/
  targets_self : ∀ x ∈ m, ∀ b ∈ x.2, (b == b) = true
  /-- No two targets of a key are equal. -/
  targets_distinct : ∀ x ∈ m, x.2.Pairwise fun a b => (a == b) = false

/-- **Another listing of the same map of maps**: the keys stand in another order, and so do
the targets of each key. -/
def Reordered (m m' : List (K × List K)) : Prop :=
  ∃ l, List.Forall₂ (fun x y => x.1 = y.1 ∧ x.2.Perm y.2) m l ∧ l.Perm m'

/-- **The same vertices and the same edges**, as far as equality of keys can tell. The vertices
are the keys of the map. What is a target only is none of them, and to make it one without
edges may change the order of a sort, because it is then numbered among the keys. -/
structure SameSets (m m' : List (K × List K)) : Prop where
  /-- The keys are the same. -/
  vertices : ∀ k, (∃ x ∈ m, (x.1 == k) = true) ↔ ∃ x ∈ m', (x.1 == k) = true
  /-- The keys have the same targets. -/
  edges : ∀ a b, (∃ x ∈ m, (x.1 == a) = true ∧ ∃ t ∈ x.2, (t == b) = true) ↔
    ∃ x ∈ m', (x.1 == a) = true ∧ ∃ t ∈ x.2, (t == b) = true

variable {m m' : List (K × List K)} {x : K × List K} {a : K}

/-- **What a key is mapped to is found under it**, and under every key equal to it. -/
theorem Listing.lookup_eq [PartialEquivBEq K] (h : Listing m) (hx : x ∈ m)
    (ha : (x.1 == a) = true) : m.lookup a = some x.2 := by
  have hdistinct := h.keys_distinct
  clear h
  induction m with
  | nil => exact absurd hx List.not_mem_nil
  | cons y m ih =>
    rw [List.map_cons, List.pairwise_cons] at hdistinct
    rw [List.lookup_cons]
    rcases List.mem_cons.mp hx with rfl | hx
    · rw [BEq.symm ha]
    · have hya : (a == y.1) = false := by
        cases hay : a == y.1 with
        | false => rfl
        | true =>
          have hyx : (y.1 == x.1) = true := BEq.trans (BEq.symm hay) (BEq.symm ha)
          exact hyx.symm.trans (hdistinct.1 x.1 (List.mem_map_of_mem hx))
      rw [hya]
      exact ih hx hdistinct.2

/-- The targets of a key stand in one entry, the only one under the keys equal to it. -/
theorem Listing.exists_target_iff [PartialEquivBEq K] (h : Listing m) (hx : x ∈ m)
    (ha : (x.1 == a) = true) (b : K) :
    (∃ y ∈ m, (y.1 == a) = true ∧ ∃ t ∈ y.2, (t == b) = true) ↔ ∃ t ∈ x.2, (t == b) = true := by
  refine ⟨?_, fun ht => ⟨x, hx, ha, ht⟩⟩
  rintro ⟨y, hy, hya, ht⟩
  have hentry : some y.2 = some x.2 := (h.lookup_eq hy hya).symm.trans (h.lookup_eq hx ha)
  rwa [Option.some.inj hentry] at ht

omit [BEq K] in
theorem Reordered.perm_keys (h : Reordered m m') : (m.map Prod.fst).Perm (m'.map Prod.fst) := by
  obtain ⟨l, hl, hperm⟩ := h
  have hkeys : m.map Prod.fst = l.map Prod.fst := by
    clear hperm
    induction hl with
    | nil => rfl
    | cons hxy _ ih => rw [List.map_cons, List.map_cons, hxy.1, ih]
  rw [hkeys]
  exact hperm.map Prod.fst

omit [BEq K] in
theorem Reordered.exists_mem (h : Reordered m m') {y : K × List K} (hy : y ∈ m') :
    ∃ x ∈ m, x.1 = y.1 ∧ x.2.Perm y.2 := by
  obtain ⟨l, hl, hperm⟩ := h
  have hyl : y ∈ l := hperm.mem_iff.mpr hy
  clear hperm
  induction hl with
  | nil => exact absurd hyl List.not_mem_nil
  | @cons x z m l hxz _ ih =>
    rcases List.mem_cons.mp hyl with rfl | hyl
    · exact ⟨x, List.mem_cons_self, hxz⟩
    · obtain ⟨w, hw, hwy⟩ := ih hyl
      exact ⟨w, List.mem_cons_of_mem x hw, hwy⟩

/-- Another listing of a map lists a map. -/
theorem Listing.reordered [PartialEquivBEq K] (h : Listing m) (hm : Reordered m m') :
    Listing m' := by
  have hsymm : ∀ {a b : K}, (a == b) = false → (b == a) = false := fun hab => by
    rw [BEq.comm]
    exact hab
  refine ⟨fun y hy => ?_, (hm.perm_keys.pairwise_iff hsymm).mp h.keys_distinct,
    fun y hy b hb => ?_, fun y hy => ?_⟩
  · obtain ⟨x, hx, hkey, -⟩ := hm.exists_mem hy
    exact hkey ▸ h.keys_self x hx
  · obtain ⟨x, hx, -, htargets⟩ := hm.exists_mem hy
    exact h.targets_self x hx b (htargets.mem_iff.mpr hb)
  · obtain ⟨x, hx, -, htargets⟩ := hm.exists_mem hy
    exact (htargets.pairwise_iff hsymm).mp (h.targets_distinct x hx)

end SourceGraph

namespace KeyedGraph

variable {g q r : KeyedGraph K} {a b : K} {u : Nat} {vs ws : List Int} {as bs : List K}

/-! ## Adding edges from one vertex -/

theorem addTargets_cons_eq_ok : addTargets a (b :: bs) g = .ok q ↔
    ∃ r, g.addEdge a b = (.ok (), r) ∧ addTargets a bs r = .ok q := by
  rw [addTargets]
  cases g.addEdge a b with
  | mk answer r => cases answer <;> simp

/-- **A graph grown by edges from one number**, in the given order. -/
structure GrownFrom (u : Nat) (vs : List Int) (g r : KeyedGraph K) : Prop where
  /-- It is well-formed. -/
  wellFormed : r.WellFormed
  /-- More keys may follow the old ones. -/
  keys_extended : g.ids.keys.toList <+: r.ids.keys.toList
  /-- The edges are the last of their source, and there are no others. -/
  successors_eq : ∀ w, r.successors w =
    if w = u then g.successors u ++ vs else g.successors w

theorem GrownFrom.refl (h : g.WellFormed) (u : Nat) : GrownFrom u [] g g where
  wellFormed := h
  keys_extended := List.prefix_rfl
  successors_eq w := by
    rw [List.append_nil]
    split
    · rename_i hw
      rw [hw]
    · rfl

theorem GrownFrom.trans (h : GrownFrom u vs g r) (h' : GrownFrom u ws r q) :
    GrownFrom u (vs ++ ws) g q where
  wellFormed := h'.wellFormed
  keys_extended := h.keys_extended.trans h'.keys_extended
  successors_eq w := by
    rw [h'.successors_eq, h.successors_eq, h.successors_eq, if_pos rfl, List.append_assoc]
    split <;> rfl

/-- A number is that of a key. -/
def Numbers (g : KeyedGraph K) (v : Int) (b : K) : Prop :=
  ∃ i : Nat, v = i ∧ g.ids.lookup b = some i

section Comparable

variable [PartialEquivBEq K]

theorem GrownFrom.lookup_eq (h : GrownFrom u vs g r) (hg : g.WellFormed) {i : Nat}
    (ha : g.ids.lookup a = some i) : r.ids.lookup a = some i :=
  hg.ids.lookup_of_extends h.wellFormed.ids h.keys_extended ha

/-- **A call for a new edge** from a vertex to a key that equals itself: the key has a number
afterwards, which is the last in the list of the vertex. If the key is a vertex already, the
keys are as before. -/
theorem WellFormed.exists_addEdge (h : g.WellFormed) (ha : g.ids.lookup a = some u)
    (hb : (b == b) = true)
    (hnew : ∀ v : Nat, g.ids.lookup b = some v → (v : Int) ∉ g.successors u) :
    ∃ (r : KeyedGraph K) (v : Nat), g.addEdge a b = (.ok (), r) ∧ GrownFrom u [(v : Int)] g r ∧
      r.ids.lookup b = some v ∧ ((g.ids.lookup b).isSome → r.keys = g.keys) := by
  have hsource : (g.endNumbers a b).1 = u := by
    unfold endNumbers
    rw [ha]
    cases g.ids.lookup b <;> rfl
  have hcall := h.addEdge_eq_growth a b
  rw [if_neg, hsource] at hcall
  · have hr := h.withVertices_freshKeys a b
    have hextends := prefix_withVertices g (g.freshKeys a b)
    have hwell := h.addEdge a b
    rw [hcall] at hwell
    refine ⟨_, (g.endNumbers a b).2, hcall, ⟨hwell, hextends, fun w => ?_⟩,
      (h.lookup_ends a b).2 hb, fun hfound => ?_⟩
    · have hu : u < (g.withVertices (g.freshKeys a b)).order :=
        hr.ids.lt_size (h.ids.lookup_of_extends hr.ids hextends ha)
      rw [hr.successors_withEdge hu, successors_withVertices]
    · obtain ⟨v, hv⟩ := Option.isSome_iff_exists.mp hfound
      have hnone : g.freshKeys a b = [] := by
        unfold freshKeys
        rw [ha, hv]
      show (g.withVertices (g.freshKeys a b)).keys = _
      rw [hnone]
      rfl
  · rw [h.mem_endNumbers_iff]
    rintro ⟨i, j, hi, hj, hmem⟩
    obtain rfl : u = i := Option.some.inj (ha.symm.trans hi)
    exact hnew j hj hmem

/-- **Different targets are all accepted**, if none is listed yet. -/
theorem WellFormed.exists_addTargets (h : g.WellFormed) (ha : g.ids.lookup a = some u)
    (hself : ∀ b ∈ bs, (b == b) = true) (hdistinct : bs.Pairwise fun b c => (b == c) = false)
    (hnew : ∀ b ∈ bs, ∀ v : Nat, g.ids.lookup b = some v → (v : Int) ∉ g.successors u) :
    ∃ (r : KeyedGraph K) (vs : List Int), addTargets a bs g = .ok r ∧ GrownFrom u vs g r ∧
      List.Forall₂ r.Numbers vs bs ∧
      ((∀ b ∈ bs, (g.ids.lookup b).isSome) → r.keys = g.keys) := by
  induction bs generalizing g with
  | nil => exact ⟨g, [], rfl, .refl h u, .nil, fun _ => rfl⟩
  | cons b bs ih =>
    obtain ⟨hb, hself⟩ := List.forall_mem_cons.mp hself
    obtain ⟨hfirst, hdistinct⟩ := List.pairwise_cons.mp hdistinct
    obtain ⟨hnewb, hnew⟩ := List.forall_mem_cons.mp hnew
    obtain ⟨r, v, hcall, hgrown, hv, hkeys⟩ := h.exists_addEdge ha hb hnewb
    have hr := hgrown.wellFormed
    have hnew' : ∀ c ∈ bs, ∀ w : Nat, r.ids.lookup c = some w → (w : Int) ∉ r.successors u := by
      intro c hc w hw hmem
      rw [hgrown.successors_eq, if_pos rfl] at hmem
      rcases List.mem_append.mp hmem with hold | hlast
      · -- an old number is that of a key that was listed before
        have hlt : w < g.ids.size := Int.ofNat_lt.mp (h.isVertex_of_mem hold).2.2
        exact hnew c hc w (h.ids.lookup_of_lt hr.ids hgrown.keys_extended hw hlt) hold
      · obtain rfl := Int.ofNat_inj.mp (List.mem_singleton.mp hlast)
        cases (hr.ids.beq_of_lookup hv hw).symm.trans (hfirst c hc)
    obtain ⟨q, vs, hrest, hgrown', hnumbers, hkeys'⟩ :=
      ih hr (hgrown.lookup_eq h ha) hself hdistinct hnew'
    refine ⟨q, v :: vs, ?_, hgrown.trans hgrown', .cons ⟨v, rfl, hgrown'.lookup_eq hr hv⟩ hnumbers,
      fun hfound => ?_⟩
    · exact addTargets_cons_eq_ok.mpr ⟨r, hcall, hrest⟩
    · obtain ⟨hfoundb, hfound⟩ := List.forall_mem_cons.mp hfound
      rw [hkeys' fun c hc => ?_, hkeys hfoundb]
      obtain ⟨w, hw⟩ := Option.isSome_iff_exists.mp (hfound c hc)
      rw [hgrown.lookup_eq h hw]
      rfl

/-- Numbers are handed out as keys equal to those whose numbers they are. -/
theorem WellFormed.forall₂_keysOf [Inhabited K] (h : g.WellFormed)
    (hvs : List.Forall₂ g.Numbers vs bs) :
    List.Forall₂ (fun a b => (a == b) = true) (g.keysOf vs) bs := by
  induction hvs with
  | nil => exact .nil
  | cons hv _ ih =>
    obtain ⟨i, rfl, hlookup⟩ := hv
    obtain ⟨j, hj, hjb⟩ := h.ids.key?_of_lookup hlookup
    rw [keysOf, List.map_cons, hj, Option.getD_some]
    exact .cons hjb ih

/-! ## Adding the edges of all vertices -/

variable [KeyOrder K] {m m' : List (K × List K)}

/-- The targets of a key in ascending order. -/
def sortedTargets (m : List (K × List K)) (a : K) : List K :=
  ((m.lookup a).getD []).mergeSort KeyOrder.le

omit [PartialEquivBEq K] in
theorem addSources_cons_eq_ok : addSources m (a :: as) g = .ok q ↔
    ∃ r, addTargets a (sortedTargets m a) g = .ok r ∧ addSources m as r = .ok q := by
  unfold sortedTargets
  rw [addSources]
  cases addTargets a (((m.lookup a).getD []).mergeSort KeyOrder.le) g <;> simp

/-- **Sources that wait for their edges**: they are vertices without edges, no two are equal,
and the targets of each are different keys that equal themselves. -/
structure Awaits (m : List (K × List K)) (as : List K) (g : KeyedGraph K) : Prop where
  /-- The sources have numbers, and no edges yet. -/
  vacant : ∀ a ∈ as, ∃ u : Nat, g.ids.lookup a = some u ∧ g.successors u = []
  /-- No two sources are equal. -/
  distinct : as.Pairwise fun a b => (a == b) = false
  /-- The targets equal themselves. -/
  targets_self : ∀ a ∈ as, ∀ b ∈ sortedTargets m a, (b == b) = true
  /-- No two targets of a source are equal. -/
  targets_distinct : ∀ a ∈ as, (sortedTargets m a).Pairwise fun b c => (b == c) = false

/-- **The graph in which the sources have their edges.** -/
structure Filled (m : List (K × List K)) (as : List K) (g r : KeyedGraph K) : Prop where
  /-- It is well-formed. -/
  wellFormed : r.WellFormed
  /-- More keys may follow the old ones. -/
  keys_extended : g.ids.keys.toList <+: r.ids.keys.toList
  /-- The list of each source holds the numbers of its targets. -/
  numbers : ∀ a ∈ as, ∀ u : Nat, g.ids.lookup a = some u →
    List.Forall₂ r.Numbers (r.successors u) (sortedTargets m a)
  /-- The other lists are as before. -/
  others : ∀ w : Int, (∀ a ∈ as, ∀ u : Nat, g.ids.lookup a = some u → w ≠ u) →
    r.successors w = g.successors w
  /-- If all targets are vertices, no keys are added. -/
  keys_eq : (∀ a ∈ as, ∀ b ∈ sortedTargets m a, (g.ids.lookup b).isSome) → r.keys = g.keys

omit [KeyOrder K] in
theorem Numbers.of_extends {v : Int} (h : g.WellFormed) (h' : r.WellFormed)
    (hextends : g.ids.keys.toList <+: r.ids.keys.toList) (hv : g.Numbers v b) : r.Numbers v b := by
  obtain ⟨i, hi, hlookup⟩ := hv
  exact ⟨i, hi, h.ids.lookup_of_extends h'.ids hextends hlookup⟩

/-- **First one source gets its edges, then the others**, which are different from it. -/
theorem Filled.cons (h : g.WellFormed) (hawaits : Awaits m (a :: as) g)
    (hu : g.ids.lookup a = some u) (hgrown : GrownFrom u vs g r)
    (hnumbers : List.Forall₂ r.Numbers vs (sortedTargets m a))
    (hkeys : (∀ b ∈ sortedTargets m a, (g.ids.lookup b).isSome) → r.keys = g.keys)
    (hfilled : Filled m as r q) : Filled m (a :: as) g q := by
  obtain ⟨⟨u', hu', hvacant⟩, hvacants⟩ := List.forall_mem_cons.mp hawaits.vacant
  obtain rfl : u = u' := Option.some.inj (hu.symm.trans hu')
  have hr := hgrown.wellFormed
  have hfirst := (List.pairwise_cons.mp hawaits.distinct).1
  have hother : ∀ c ∈ as, ∀ i : Nat, r.ids.lookup c = some i → (u : Int) ≠ i := by
    intro c hc i hi heq
    obtain rfl := Int.ofNat_inj.mp heq
    cases (hr.ids.beq_of_lookup (hgrown.lookup_eq h hu) hi).symm.trans (hfirst c hc)
  refine
    { wellFormed := hfilled.wellFormed
      keys_extended := hgrown.keys_extended.trans hfilled.keys_extended
      numbers := List.forall_mem_cons.mpr ⟨fun i hi => ?_, fun c hc i hi => ?_⟩
      others := fun w hw => ?_
      keys_eq := fun hfound => ?_ }
  · obtain rfl : u = i := Option.some.inj (hu.symm.trans hi)
    rw [hfilled.others u hother, hgrown.successors_eq, if_pos rfl, hvacant, List.nil_append]
    exact hnumbers.imp fun _ _ => Numbers.of_extends hr hfilled.wellFormed hfilled.keys_extended
  · exact hfilled.numbers c hc i (hgrown.lookup_eq h hi)
  · obtain ⟨hwu, hws⟩ := List.forall_mem_cons.mp hw
    rw [hfilled.others w fun c hc i hi => ?_, hgrown.successors_eq, if_neg (hwu u hu)]
    -- the number of a source has not changed
    obtain ⟨j, hj, -⟩ := hvacants c hc
    obtain rfl : j = i := Option.some.inj ((hgrown.lookup_eq h hj).symm.trans hi)
    exact hws c hc j hj
  · obtain ⟨hfounda, hfounds⟩ := List.forall_mem_cons.mp hfound
    rw [hfilled.keys_eq fun c hc b hb => ?_, hkeys hfounda]
    obtain ⟨v, hv⟩ := Option.isSome_iff_exists.mp (hfounds c hc b hb)
    exact Option.isSome_iff_exists.mpr ⟨v, hgrown.lookup_eq h hv⟩

/-- **The edges of all sources are accepted.** -/
theorem WellFormed.exists_addSources (h : g.WellFormed) (hawaits : Awaits m as g) :
    ∃ r, addSources m as g = .ok r ∧ Filled m as g r := by
  induction as generalizing g with
  | nil =>
    refine ⟨g, rfl, h, List.prefix_rfl, ?_, fun _ _ => rfl, fun _ => rfl⟩
    exact List.forall_mem_nil _
  | cons a as ih =>
    obtain ⟨⟨u, hu, hvacant⟩, hvacants⟩ := List.forall_mem_cons.mp hawaits.vacant
    obtain ⟨hfirst, hdistinct⟩ := List.pairwise_cons.mp hawaits.distinct
    obtain ⟨hself, hselfs⟩ := List.forall_mem_cons.mp hawaits.targets_self
    obtain ⟨hdifferent, hdifferents⟩ := List.forall_mem_cons.mp hawaits.targets_distinct
    have hnew : ∀ b ∈ sortedTargets m a, ∀ v : Nat, g.ids.lookup b = some v →
        (v : Int) ∉ g.successors u := fun _ _ _ _ => by
      rw [hvacant]
      exact List.not_mem_nil
    obtain ⟨r, vs, hcall, hgrown, hnumbers, hkeys⟩ := h.exists_addTargets hu hself hdifferent hnew
    -- the other sources are still vacant, since they have other numbers
    have hawaits' : Awaits m as r := by
      refine ⟨fun c hc => ?_, hdistinct, hselfs, hdifferents⟩
      obtain ⟨i, hi, hnone⟩ := hvacants c hc
      refine ⟨i, hgrown.lookup_eq h hi, ?_⟩
      rw [hgrown.successors_eq, if_neg fun heq => ?_]
      · exact hnone
      · obtain rfl := Int.ofNat_inj.mp heq
        cases (h.ids.beq_of_lookup hu hi).symm.trans (hfirst c hc)
    obtain ⟨q, hrest, hfilled⟩ := ih hgrown.wellFormed hawaits'
    refine ⟨q, ?_, hfilled.cons h hawaits hu hgrown hnumbers hkeys⟩
    exact addSources_cons_eq_ok.mpr ⟨r, hcall, hrest⟩

/-! ## The vertices -/

omit [KeyOrder K] in
theorem keys_replay_vertices (hdistinct : as.Pairwise fun a b => (a == b) = false) :
    (replay ({} : KeyedGraph K) (as.map .vertex)).keys = as := by
  have hids : ∀ g : KeyedGraph K, (g.replay (as.map .vertex)).ids = g.ids.internAll as := by
    clear hdistinct
    induction as with
    | nil => exact fun _ => rfl
    | cons a as ih => exact fun g => ih (g.addVertex a).2
  show (replay ({} : KeyedGraph K) (as.map .vertex)).ids.keys.toList = as
  rw [hids]
  exact (Interner.keys_internAll as).trans (firstMentions_of_distinct hdistinct)

/-- The keys of a map in ascending order. -/
def sortedSources (m : List (K × List K)) : List K := (m.map Prod.fst).mergeSort KeyOrder.le

omit [BEq K] [PartialEquivBEq K] in
theorem mem_sortedSources : a ∈ sortedSources m ↔ ∃ x ∈ m, x.1 = a :=
  List.mem_mergeSort.trans List.mem_map

/-- The graph with the keys of a map for vertices, and no edges yet. -/
def isolated (m : List (K × List K)) : KeyedGraph K :=
  replay {} ((sortedSources m).map .vertex)

omit [PartialEquivBEq K] in
/-- **To import a map is to add the edges of its keys** to a graph of them. -/
theorem ofSource_eq_ok {src : SourceGraph K} (hdirected : src.directed = true)
    (hadjacency : src.adjacency = .ok m) :
    ofSource src = .ok q ↔ addSources m (sortedSources m) (isolated m) = .ok q := by
  have hfold : isolated m = (sortedSources m).foldl (fun g k => (g.addVertex k).2) {} :=
    List.foldl_map
  unfold ofSource
  rw [if_pos hdirected, hadjacency, hfold]
  unfold sortedSources
  dsimp only
  cases addSources m ((m.map Prod.fst).mergeSort KeyOrder.le) _ <;> simp

theorem wellFormed_isolated (m : List (K × List K)) : (isolated m).WellFormed :=
  wellFormed_empty.replay _

section Listed

variable [LawfulKeyOrder K] (h : SourceGraph.Listing m) {x : K × List K}

include h

theorem before_sortedSources : (sortedSources m).Pairwise KeyOrder.Before := by
  refine pairwise_before_mergeSort (fun a ha => ?_) h.keys_distinct
  obtain ⟨x, hx, rfl⟩ := List.mem_map.mp ha
  exact h.keys_self x hx

omit [LawfulKeyOrder K] in
theorem sortedTargets_eq (hx : x ∈ m) (ha : (x.1 == a) = true) :
    sortedTargets m a = x.2.mergeSort KeyOrder.le := by
  rw [sortedTargets, h.lookup_eq hx ha, Option.getD_some]

theorem before_sortedTargets (hx : x ∈ m) (ha : (x.1 == a) = true) :
    (sortedTargets m a).Pairwise KeyOrder.Before := by
  rw [sortedTargets_eq h hx ha]
  exact pairwise_before_mergeSort (h.targets_self x hx) (h.targets_distinct x hx)

theorem keys_isolated : (isolated m).keys = sortedSources m :=
  keys_replay_vertices ((before_sortedSources h).imp fun hab => hab.beq_eq_false)

/-- Every key equal to one of the map is a vertex without edges. -/
theorem exists_lookup_isolated (hx : x ∈ m) (ha : (x.1 == a) = true) :
    ∃ u : Nat, (isolated m).ids.lookup a = some u ∧ (isolated m).successors u = [] := by
  have hids := (wellFormed_isolated m).ids
  have hmem : x.1 ∈ (isolated m).ids.keys.toList := by
    show x.1 ∈ (isolated m).keys
    rw [keys_isolated h]
    exact mem_sortedSources.mpr ⟨x, hx, rfl⟩
  have hfound : ((isolated m).ids.lookup a).isSome := by
    rw [hids.lookup_eq_findIdx?, List.findIdx?_isSome]
    exact List.any_eq_true.mpr ⟨x.1, hmem, ha⟩
  obtain ⟨u, hu⟩ := Option.isSome_iff_exists.mp hfound
  refine ⟨u, hu, ?_⟩
  unfold isolated
  rw [wellFormed_empty.successors_replay_vertices]
  exact successors_natCast {} u

/-- **The keys of a map await their edges.** -/
theorem awaits_isolated : Awaits m (sortedSources m) (isolated m) := by
  refine ⟨fun a ha => ?_, (before_sortedSources h).imp fun hab => hab.beq_eq_false,
    fun a ha b hb => ?_, fun a ha => ?_⟩
  · obtain ⟨x, hx, rfl⟩ := mem_sortedSources.mp ha
    exact exists_lookup_isolated h hx (h.keys_self x hx)
  · obtain ⟨x, hx, rfl⟩ := mem_sortedSources.mp ha
    rw [sortedTargets_eq h hx (h.keys_self x hx)] at hb
    exact h.targets_self x hx b (List.mem_mergeSort.mp hb)
  · obtain ⟨x, hx, rfl⟩ := mem_sortedSources.mp ha
    exact (before_sortedTargets h hx (h.keys_self x hx)).imp fun hab => hab.beq_eq_false

/-- **The keys are those of the map in ascending order**, followed by targets that are none of
them. -/
theorem Filled.keys_eq_append (hfilled : Filled m (sortedSources m) (isolated m) q) :
    ∃ rest, q.keys = sortedSources m ++ rest ∧
      ((∀ x ∈ m, ∀ b ∈ x.2, ∃ y ∈ m, (y.1 == b) = true) → rest = []) := by
  obtain ⟨rest, hrest⟩ := hfilled.keys_extended
  have hkeys : q.keys = sortedSources m ++ rest := by
    rw [← keys_isolated h]
    exact hrest.symm
  refine ⟨rest, hkeys, fun hclosed => ?_⟩
  have hsame : q.keys = (isolated m).keys := hfilled.keys_eq fun a ha b hb => by
    obtain ⟨x, hx, rfl⟩ := mem_sortedSources.mp ha
    rw [sortedTargets_eq h hx (h.keys_self x hx)] at hb
    obtain ⟨y, hy, hyb⟩ := hclosed x hx b (List.mem_mergeSort.mp hb)
    obtain ⟨u, hu, -⟩ := exists_lookup_isolated h hy hyb
    exact Option.isSome_iff_exists.mpr ⟨u, hu⟩
  rw [hkeys, keys_isolated h] at hsame
  exact List.append_right_eq_self.mp hsame

/-- **The successors of a key are its targets in ascending order**, up to equality of keys. -/
theorem Filled.exists_successorKeys [Inhabited K]
    (hfilled : Filled m (sortedSources m) (isolated m) q) (hx : x ∈ m) (ha : (x.1 == a) = true) :
    ∃ us, q.successorKeys a = .ok us ∧
      List.Forall₂ (fun a b => (a == b) = true) us (sortedTargets m x.1) := by
  obtain ⟨u, hu, -⟩ := exists_lookup_isolated h hx (h.keys_self x hx)
  have hlookup : q.ids.lookup a = some u := by
    rw [← q.ids.lookup_congr ha]
    exact (wellFormed_isolated m).ids.lookup_of_extends hfilled.wellFormed.ids
      hfilled.keys_extended hu
  have hnumbers := hfilled.numbers x.1 (mem_sortedSources.mpr ⟨x, hx, rfl⟩) u hu
  refine ⟨q.keysOf (q.successors u), ?_, hfilled.wellFormed.forall₂_keysOf hnumbers⟩
  unfold successorKeys
  rw [hlookup]

end Listed

/-! ## Other listings -/

omit [PartialEquivBEq K] in
theorem addSources_congr (htargets : ∀ a ∈ as, sortedTargets m' a = sortedTargets m a) :
    addSources m' as g = addSources m as g := by
  induction as generalizing g with
  | nil => rfl
  | cons a as ih =>
    obtain ⟨hfirst, hrest⟩ := List.forall_mem_cons.mp htargets
    unfold sortedTargets at hfirst
    rw [addSources, addSources, hfirst]
    cases addTargets a (((m.lookup a).getD []).mergeSort KeyOrder.le) g with
    | error e => rfl
    | ok r => exact ih hrest

section Alike

variable [LawfulKeyOrder K] (h : SourceGraph.Listing m)

include h

theorem sortedSources_of_reordered (hm : SourceGraph.Reordered m m') :
    sortedSources m' = sortedSources m := by
  refine eq_of_perm_of_before ?_ (before_sortedSources (h.reordered hm)) (before_sortedSources h)
  exact ((List.mergeSort_perm _ _).trans hm.perm_keys.symm).trans (List.mergeSort_perm _ _).symm

theorem sortedTargets_of_reordered (hm : SourceGraph.Reordered m m') (ha : a ∈ sortedSources m') :
    sortedTargets m' a = sortedTargets m a := by
  have h' := h.reordered hm
  obtain ⟨y, hy, rfl⟩ := mem_sortedSources.mp ha
  obtain ⟨x, hx, hkey, htargets⟩ := hm.exists_mem hy
  have hself := h'.keys_self y hy
  have hxy : (x.1 == y.1) = true := by rwa [hkey]
  refine eq_of_perm_of_before ?_ (before_sortedTargets h' hy hself) (before_sortedTargets h hx hxy)
  rw [sortedTargets_eq h' hy hself, sortedTargets_eq h hx hxy]
  exact ((List.mergeSort_perm _ _).trans htargets.symm).trans (List.mergeSort_perm _ _).symm

/-- **Another listing of a map is imported alike.** -/
theorem addSources_of_reordered (hm : SourceGraph.Reordered m m') :
    addSources m' (sortedSources m') (isolated m') =
      addSources m (sortedSources m) (isolated m) := by
  rw [addSources_congr fun a => sortedTargets_of_reordered h hm]
  unfold isolated
  rw [sortedSources_of_reordered h hm]

variable (h' : SourceGraph.Listing m') (hm : SourceGraph.SameSets m m')

include h' hm

theorem forall₂_sortedSources :
    List.Forall₂ (fun a b => (a == b) = true) (sortedSources m) (sortedSources m') := by
  refine forall₂_beq_of_before (fun a ha => ?_) (fun a ha => ?_) (before_sortedSources h)
    (before_sortedSources h') fun k => ?_
  · obtain ⟨x, hx, rfl⟩ := mem_sortedSources.mp ha
    exact h.keys_self x hx
  · obtain ⟨x, hx, rfl⟩ := mem_sortedSources.mp ha
    exact h'.keys_self x hx
  · simpa [mem_sortedSources] using hm.vertices k

theorem forall₂_sortedTargets {x y : K × List K} (hx : x ∈ m) (hy : y ∈ m')
    (hxy : (x.1 == y.1) = true) :
    List.Forall₂ (fun a b => (a == b) = true) (sortedTargets m x.1) (sortedTargets m' y.1) := by
  have hselfx := h.keys_self x hx
  have hselfy := h'.keys_self y hy
  have hbeforex := before_sortedTargets h hx hselfx
  have hbeforey := before_sortedTargets h' hy hselfy
  rw [sortedTargets_eq h hx hselfx] at hbeforex ⊢
  rw [sortedTargets_eq h' hy hselfy] at hbeforey ⊢
  refine forall₂_beq_of_before (fun b hb => ?_) (fun b hb => ?_) hbeforex hbeforey fun k => ?_
  · exact h.targets_self x hx b (List.mem_mergeSort.mp hb)
  · exact h'.targets_self y hy b (List.mem_mergeSort.mp hb)
  · simp only [List.mem_mergeSort]
    rw [← h.exists_target_iff hx hxy, ← h'.exists_target_iff hy hselfy]
    exact hm.edges y.1 k

end Alike

/-! ## Imports that correspond -/

section Correspondence

variable {R : K → K → Prop} {g' : KeyedGraph K} {x : K} {xs ys : List K}

omit [PartialEquivBEq K] [KeyOrder K] in
theorem Corresponds.vertices (hR : NamesAlike R) (has : List.Forall₂ R as xs)
    (hg : Corresponds R g g') :
    Corresponds R (g.replay (as.map .vertex)) (g'.replay (xs.map .vertex)) := by
  induction has generalizing g g' with
  | nil => exact hg
  | cons hax _ ih => exact ih (hg.addVertex hR hax).2

omit [PartialEquivBEq K] [KeyOrder K] in
/-- **Corresponding targets are accepted alike.** -/
theorem Corresponds.addTargets (hR : NamesAlike R) (hg : Corresponds R g g') (hax : R a x)
    (hbs : List.Forall₂ R bs ys) (hq : KeyedGraph.addTargets a bs g = .ok q) :
    ∃ q', KeyedGraph.addTargets x ys g' = .ok q' ∧ Corresponds R q q' := by
  induction hbs generalizing g g' with
  | nil =>
    cases hq
    exact ⟨g', rfl, hg⟩
  | cons hby _ ih =>
    obtain ⟨r, hcall, hrest⟩ := addTargets_cons_eq_ok.mp hq
    obtain ⟨hnext, hanswer⟩ := hg.addEdge hR hax hby
    rw [hcall] at hnext hanswer
    rcases hanswer with ⟨-, haccepted⟩ | ⟨hrefused, -⟩
    · obtain ⟨q', hrun, hqq'⟩ := ih hnext hrest
      exact ⟨q', addTargets_cons_eq_ok.mpr ⟨_, Prod.ext haccepted rfl, hrun⟩, hqq'⟩
    · cases hrefused

omit [PartialEquivBEq K] in
/-- **Corresponding sources get corresponding edges.** -/
theorem Corresponds.addSources (hR : NamesAlike R) (hg : Corresponds R g g')
    (has : List.Forall₂ (fun a x => R a x ∧
      List.Forall₂ R (sortedTargets m a) (sortedTargets m' x)) as xs)
    (hq : KeyedGraph.addSources m as g = .ok q) :
    ∃ q', KeyedGraph.addSources m' xs g' = .ok q' ∧ Corresponds R q q' := by
  induction has generalizing g g' with
  | nil =>
    cases hq
    exact ⟨g', rfl, hg⟩
  | cons hax _ ih =>
    obtain ⟨r, hcall, hrest⟩ := addSources_cons_eq_ok.mp hq
    obtain ⟨r', hcall', hrr'⟩ := hg.addTargets hR hax.1 hax.2 hcall
    obtain ⟨q', hrest', hqq'⟩ := ih hrr' hrest
    exact ⟨q', addSources_cons_eq_ok.mpr ⟨r', hcall', hrest'⟩, hqq'⟩

omit [KeyOrder K] in
/-- Equal keys are names for the same key. -/
theorem namesAlike_beq : NamesAlike fun a b : K => (a == b) = true :=
  fun _ _ _ _ hax hby => (BEq.congr_left hax).trans (BEq.congr_right hby)

/-- **Maps of the same vertices and edges are imported as graphs that correspond.** -/
theorem exists_corresponds_of_sameSets [LawfulKeyOrder K] (h : SourceGraph.Listing m)
    (h' : SourceGraph.Listing m') (hm : SourceGraph.SameSets m m')
    (hq : KeyedGraph.addSources m (sortedSources m) (isolated m) = .ok q) :
    ∃ q', KeyedGraph.addSources m' (sortedSources m') (isolated m') = .ok q' ∧
      Corresponds (fun a b => (a == b) = true) q q' := by
  have hsources := forall₂_sortedSources h h' hm
  have hisolated : Corresponds (fun a b => (a == b) = true) (isolated m) (isolated m') :=
    Corresponds.empty.vertices namesAlike_beq hsources
  refine hisolated.addSources namesAlike_beq ?_ hq
  rw [List.forall₂_iff_zip] at hsources ⊢
  refine ⟨hsources.1, fun {a b} hab => ⟨hsources.2 hab, ?_⟩⟩
  obtain ⟨x, hx, rfl⟩ := mem_sortedSources.mp (List.of_mem_zip hab).1
  obtain ⟨y, hy, rfl⟩ := mem_sortedSources.mp (List.of_mem_zip hab).2
  exact forall₂_sortedTargets h h' hm hx hy (hsources.2 hab)

end Correspondence

/-- **What an import makes of a map depends on the map alone.** Of a directed graph whose
adjacency is a map of maps, every import succeeds. The keys of the result begin with those of
the map in ascending order, and are no others if all targets are keys of the map. The
successors of every key of the map are its targets, strictly ascending. The result is the same
however the two maps are listed. And a map with equal keys and equal targets, even if they are
not the same, gives a graph that is sorted alike for every client, with the same calls of its
hooks. -/
theorem ofSource_canonical [Inhabited K] [LawfulKeyOrder K] (src : SourceGraph K)
    (hdirected : src.directed = true) (hadjacency : src.adjacency = .ok m)
    (h : SourceGraph.Listing m) :
    ∃ q : KeyedGraph K, ofSource src = .ok q ∧
      (∃ sources rest, q.keys = sources ++ rest ∧ sources.Perm (m.map Prod.fst) ∧
        sources.Pairwise KeyOrder.Before ∧
        ((∀ x ∈ m, ∀ b ∈ x.2, ∃ y ∈ m, (y.1 == b) = true) → rest = [])) ∧
      (∀ x ∈ m, ∀ k, (x.1 == k) = true → ∃ us ts, q.successorKeys k = .ok us ∧
        us.Pairwise KeyOrder.Before ∧ ts.Perm x.2 ∧
        List.Forall₂ (fun a b => (a == b) = true) us ts) ∧
      ∀ (src' : SourceGraph K) (m' : List (K × List K)), src'.directed = true →
        src'.adjacency = .ok m' →
        (SourceGraph.Reordered m m' → ofSource src' = .ok q) ∧
        (SourceGraph.Listing m' → SourceGraph.SameSets m m' →
          ∃ q' : KeyedGraph K, ofSource src' = .ok q' ∧ ∀ (σ : Type) (o : Options σ) (c : σ),
            SortedAlike (fun a b => (a == b) = true) (q.sort o c) (q'.sort o c) ∧
              (q'.sort o.recorded (c, [])).2 = (q.sort o.recorded (c, [])).2) := by
  obtain ⟨q, hrun, hfilled⟩ := (wellFormed_isolated m).exists_addSources (awaits_isolated h)
  obtain ⟨rest, hkeys, hclosed⟩ := hfilled.keys_eq_append h
  refine ⟨q, (ofSource_eq_ok hdirected hadjacency).mpr hrun,
    ⟨sortedSources m, rest, hkeys, List.mergeSort_perm _ _, before_sortedSources h, hclosed⟩,
    fun x hx k hk => ?_, fun src' m' hdirected' hadjacency' => ⟨fun hm => ?_, fun h' hm => ?_⟩⟩
  · have hself := h.keys_self x hx
    obtain ⟨us, hus, hequal⟩ := hfilled.exists_successorKeys h hx hk
    refine ⟨us, sortedTargets m x.1, hus, ?_, ?_, hequal⟩
    · exact pairwise_before_of_forall₂ hequal (before_sortedTargets h hx hself)
    · rw [sortedTargets_eq h hx hself]
      exact List.mergeSort_perm _ _
  · exact (ofSource_eq_ok hdirected' hadjacency').mpr ((addSources_of_reordered h hm).trans hrun)
  · obtain ⟨q', hrun', hqq'⟩ := exists_corresponds_of_sameSets h h' hm hrun
    refine ⟨q', (ofSource_eq_ok hdirected' hadjacency').mpr hrun', fun σ o c => ?_⟩
    exact ⟨hqq'.sort o c, (hqq'.sort o.recorded (c, [])).client_eq⟩

end Comparable

/-- A map of floats with a target that is no key. It may be listed in another order, and it may
have the other zero for a key or a target. -/
theorem ofSource_canonical_floats :
    let m : List (Float × List Float) := [(1, [2, 0]), (-0.0, [1])]
    let m' : List (Float × List Float) := [(-0.0, [1]), (1, [0, 2])]
    let m'' : List (Float × List Float) := [(0, [1]), (1, [-0.0, 2])]
    ∃ q q' : KeyedGraph Float, ofSource { adjacency := .ok m } = .ok q ∧
      ofSource { adjacency := .ok m' } = .ok q ∧ ofSource { adjacency := .ok m'' } = .ok q' ∧
      (∃ sources rest, q.keys = sources ++ rest ∧ sources.Perm [1, -0.0] ∧
        sources.Pairwise KeyOrder.Before) ∧
      (∃ us ts, q.successorKeys 1 = .ok us ∧ us.Pairwise KeyOrder.Before ∧ ts.Perm [2, 0] ∧
        List.Forall₂ (fun a b => (a == b) = true) us ts) ∧
      SortedAlike (fun a b => (a == b) = true) (q.sort {} ()) (q'.sort {} ()) := by
  intro m m' m''
  have h : SourceGraph.Listing m :=
    ⟨by decide +kernel, by decide +kernel, by decide +kernel, by decide +kernel⟩
  have h'' : SourceGraph.Listing m'' :=
    ⟨by decide +kernel, by decide +kernel, by decide +kernel, by decide +kernel⟩
  have hreordered : SourceGraph.Reordered m m' := by
    refine ⟨[(1, [0, 2]), (-0.0, [1])], .cons ⟨rfl, .swap _ _ _⟩ (.cons ⟨rfl, .refl _⟩ .nil), ?_⟩
    exact .swap _ _ _
  have hzero : ∀ k : Float, ((-0.0 : Float) == k) = ((0 : Float) == k) := fun k =>
    BEq.congr_left (by decide +kernel)
  have hsame : SourceGraph.SameSets m m'' := by
    refine ⟨fun k => ?_, fun a b => ?_⟩
    · simp [m, m'', hzero, or_comm]
    · simp [m, m'', hzero, or_comm]
  obtain ⟨q, hq, ⟨sources, rest, hkeys, hperm, hsources, -⟩, hsuccessors, hother⟩ :=
    ofSource_canonical { adjacency := .ok m } rfl rfl h
  obtain ⟨us, ts, hus, hascending, hts, hequal⟩ :=
    hsuccessors (1, [2, 0]) List.mem_cons_self 1 (by decide +kernel)
  obtain ⟨q', hq', hsort⟩ := (hother { adjacency := .ok m'' } m'' rfl rfl).2 h'' hsame
  exact ⟨q, q', hq, (hother { adjacency := .ok m' } m' rfl rfl).1 hreordered, hq',
    ⟨sources, rest, hkeys, hperm, hsources⟩, ⟨us, ts, hus, hascending, hts, hequal⟩,
    (hsort Unit {} ()).1⟩

end KeyedGraph

end TopologicalOrder
