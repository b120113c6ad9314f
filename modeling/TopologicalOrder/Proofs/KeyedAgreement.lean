import Mathlib
import TopologicalOrder.Proofs.KeyedSort
import TopologicalOrder.Proofs.Observation

/-!
# Numbers as keys

There are two ways to hold a graph over the vertices `0 … n - 1`: a validated graph of `n`
vertices, which checks every end of an edge against its bounds, and a keyed graph whose
keys are integers, which knows no bounds and numbers the keys as it meets them. If the
vertices are mentioned in ascending order first, every vertex is its own number, and from
then on the two cannot be told apart (`KeyedGraph.agrees_with_validated`): they answer
every call alike, list the same successors and are sorted alike.

The proof is a simulation. Two graphs agree if the keys of the one are the vertices of the
other and both list the same successors (`Agrees`); a call between vertices keeps them in
agreement and is answered alike (`Agrees.addEdge`), since a loop is allowed on both sides and
the only refusal left is that of a second copy.
-/

namespace TopologicalOrder

variable {σ : Type} {d : Graph} {k : KeyedGraph Int} {n : Nat} {u v : Int}

/-- **A validated graph and a keyed graph that hold the same edges**, where every vertex is
its own key. -/
structure Agrees (d : Graph) (k : KeyedGraph Int) : Prop where
  /-- The validated graph is one. -/
  graph : d.WellFormed
  /-- It allows loops. -/
  looped : d.looped = true
  /-- The keyed graph is one. -/
  keyed : k.WellFormed
  /-- The keys are the vertices in ascending order. -/
  keys_eq : k.keys = vertices d.order
  /-- Both list the same successors. -/
  successors_eq : k.successors = d.successors

namespace Agrees

theorem order_eq (h : Agrees d k) : k.order = d.order := by
  show k.ids.keys.size = d.order
  rw [← Array.length_toList]
  show k.keys.length = d.order
  rw [h.keys_eq, length_vertices]

/-- **Every vertex is its own number.** -/
theorem lookup_eq (h : Agrees d k) (hv : IsVertex d.order v) :
    k.ids.lookup v = some v.toNat := by
  obtain ⟨h0, hlt⟩ := hv
  obtain ⟨i, rfl⟩ := Int.eq_ofNat_of_zero_le h0
  rw [h.keyed.ids.lookup_eq_some, ← Array.getElem?_toList]
  show k.keys[i]? = _
  rw [h.keys_eq]
  simp [vertices, Int.ofNat_lt.mp hlt]

theorem key?_eq (h : Agrees d k) (hv : IsVertex d.order v) : k.ids.key? v = some v :=
  h.keyed.ids.key?_eq_some.mpr ⟨v.toNat, (Int.toNat_of_nonneg hv.1).symm, h.lookup_eq hv⟩

/-- **Vertices handed out as keys are themselves.** -/
theorem keysOf_eq (h : Agrees d k) {ws : List Int} (hws : ∀ w ∈ ws, IsVertex d.order w) :
    k.keysOf ws = ws := by
  refine (List.map_congr_left fun w hw => ?_).trans (List.map_id ws)
  rw [h.key?_eq (hws w hw), Option.getD_some, id]

/-- **A call between vertices is answered alike and keeps the graphs in agreement.** It is
accepted by both, or refused by both as a second copy. -/
theorem addEdge (h : Agrees d k) (hu : IsVertex d.order u) (hv : IsVertex d.order v) :
    Agrees (d.addEdge u v).2 (k.addEdge u v).2 ∧
      ((d.addEdge u v).1 = .ok () ∧ (k.addEdge u v).1 = .ok () ∨
        (d.addEdge u v).1 = .error (.duplicate u v) ∧
          (k.addEdge u v).1 = .error (.duplicateEdge u v)) := by
  have hadmissible : Edge.Admissible d.order d.looped ⟨u, v⟩ := ⟨hu, hv, Or.inr h.looped⟩
  have hu' : (u.toNat : Int) = u := Int.toNat_of_nonneg hu.1
  have hv' : (v.toNat : Int) = v := Int.toNat_of_nonneg hv.1
  have hkeyed : k.addEdge u v =
      if v ∈ d.successors u then (.error (.duplicateEdge u v), k)
      else (.ok (), k.withEdge u.toNat v.toNat) := by
    rw [h.keyed.addEdge_of_lookup (h.lookup_eq hu) (h.lookup_eq hv), hu', hv', h.successors_eq]
  rw [hkeyed, Graph.addEdge_of_admissible hadmissible]
  by_cases hold : v ∈ d.successors u
  · rw [if_pos hold, if_pos hold]
    exact ⟨h, Or.inr ⟨rfl, rfl⟩⟩
  · have hadd : d.addEdge u v = (.ok (), d.withEdge u v) :=
      Graph.addEdge_eq_ok.mpr ⟨hadmissible, hold, rfl⟩
    have hvnat : v.toNat < k.order := by
      rw [h.order_eq]
      exact (Int.toNat_lt hv.1).mpr hv.2
    rw [if_neg hold, if_neg hold]
    refine ⟨⟨h.graph.addEdge hadd, h.looped, h.keyed.withEdge hvnat ?_, h.keys_eq, ?_⟩,
      Or.inl ⟨rfl, rfl⟩⟩
    · rw [hu', hv', h.successors_eq]
      exact hold
    · -- the new edge is the last of the same list on both sides
      have hunat : u.toNat < k.order := by
        rw [h.order_eq]
        exact (Int.toNat_lt hu.1).mpr hu.2
      funext w
      rw [h.keyed.successors_withEdge hunat, h.graph.successors_withEdge hu, hu', hv',
        h.successors_eq]

/-- **Agreement lasts over every sequence of calls between vertices.** -/
theorem replay (h : Agrees d k) {es : List Edge}
    (hes : ∀ e ∈ es, IsVertex d.order e.source ∧ IsVertex d.order e.target) :
    Agrees (d.replay es) (k.replay (es.map fun e => .edge e.source e.target)) := by
  induction es generalizing d k with
  | nil => exact h
  | cons e es ih =>
    obtain ⟨⟨hsource, htarget⟩, hrest⟩ := List.forall_mem_cons.mp hes
    refine ih (h.addEdge hsource htarget).1 fun e' he' => ?_
    rw [(Graph.order_addEdge d e.source e.target).1]
    exact hrest e' he'

/-- **Graphs that agree are sorted alike**: the same order, or the same failure, and the
client is left in the same state. -/
theorem sort_eq (h : Agrees d k) (o : Options σ) (c : σ) :
    k.sort o c = Prod.map (fun r => (r.map Array.toList).mapError KeyedError.sort) id
      (topologicalSort (some d.successors) d.order o c) := by
  rw [KeyedGraph.sort_eq, h.order_eq, h.successors_eq]
  cases hs : topologicalSort (some d.successors) d.order o c with
  | mk answer c' =>
    cases answer with
    | error e => rfl
    | ok order =>
      obtain ⟨xs, hlist, rfl⟩ := finishOrder_of_topologicalSort (congrArg Prod.fst hs)
      show (Except.ok (k.keysOf _), c') = (Except.ok _, c')
      rw [h.keysOf_eq fun w hw => mem_vertices.mp (hlist.perm_reverse.mem_iff.mp hw)]

end Agrees

/-- **The keyed graph in which `0 … n - 1` were mentioned in this order**, and no edge yet. -/
def KeyedGraph.numbered (n : Nat) : KeyedGraph Int :=
  replay {} ((vertices n).map .vertex)

theorem KeyedGraph.keys_numbered (n : Nat) : (numbered n).keys = vertices n := by
  unfold numbered
  rw [keys_replay, List.flatMap_map]
  show ((vertices n).flatMap fun v => [v]).eraseDups = _
  rw [List.flatMap_singleton', eraseDups_of_nodup (nodup_vertices n)]

/-- The two graphs without edges agree. -/
theorem agrees_numbered (h : Graph.ofOrder n [.loops] = .ok d) :
    Agrees d (KeyedGraph.numbered n) := by
  obtain ⟨horder, hlooped⟩ := Graph.order_of_ofOrder h
  refine ⟨Graph.wellFormed_of_ofOrder h, hlooped, KeyedGraph.wellFormed_empty.replay _, ?_, ?_⟩
  · rw [KeyedGraph.keys_numbered, horder, Int.toNat_natCast]
  · funext w
    unfold KeyedGraph.numbered
    rw [KeyedGraph.wellFormed_empty.successors_replay_vertices, Graph.successors_of_ofOrder h]
    unfold KeyedGraph.successors
    split <;> rfl

/-- **A validated graph and a keyed graph over the same vertices cannot be told apart.** For
every order that is allowed, the validated graph with loops exists. Make any sequence of
calls between vertices on it, and the same on the keyed graph in which the vertices were
mentioned first. Then both list the same successors of every integer; the next call is
accepted by both, or refused by both as a second copy; and for every client the keyed
graph is sorted into the very vertices of the other's order, or fails for the same reason,
with the client in the same state and the same calls of its hooks. -/
theorem KeyedGraph.agrees_with_validated (hn : n ≤ maxOrder) :
    ∃ d, Graph.ofOrder n [.loops] = .ok d ∧ ∀ es : List Edge,
      (∀ e ∈ es, IsVertex n e.source ∧ IsVertex n e.target) →
        let d := d.replay es
        let k := (numbered n).replay (es.map fun e => .edge e.source e.target)
        (∀ v, k.successors v = d.successors v) ∧
          (∀ u v, IsVertex n u → IsVertex n v →
            (d.addEdge u v).1 = .ok () ∧ (k.addEdge u v).1 = .ok () ∨
              (d.addEdge u v).1 = .error (.duplicate u v) ∧
                (k.addEdge u v).1 = .error (.duplicateEdge u v)) ∧
          ∀ (o : Options σ) (c : σ),
            let asKeys := fun r : Except SortError (Array Int) =>
              (r.map Array.toList).mapError (KeyedError.sort (K := Int))
            k.sort o c =
                Prod.map asKeys id (topologicalSort (some d.successors) n o c) ∧
              k.sort o.recorded (c, []) =
                Prod.map asKeys id (topologicalSort (some d.successors) n o.recorded (c, [])) := by
  have hstart : ∃ d, Graph.ofOrder n [.loops] = .ok d :=
    ⟨_, Graph.ofOrder_eq_ok.mpr ⟨⟨Int.natCast_nonneg n, Int.ofNat_le.mpr hn⟩, rfl⟩⟩
  obtain ⟨d, hd⟩ := hstart
  have horder : d.order = n := (Graph.order_of_ofOrder hd).1.trans (Int.toNat_natCast n)
  refine ⟨d, hd, fun es hes => ?_⟩
  intro d' k
  have h : Agrees d' k := (agrees_numbered hd).replay (by rw [horder]; exact hes)
  have horder' : d'.order = n := (Graph.order_replay d es).1.trans horder
  refine ⟨fun v => congrFun h.successors_eq v, fun u v hu hv => ?_, fun o c => ?_⟩
  · rw [← horder'] at hu hv
    exact (h.addEdge hu hv).2
  · rw [← horder']
    exact ⟨h.sort_eq o c, h.sort_eq o.recorded (c, [])⟩

/-- Three vertices, with a loop at `1`: a second copy is refused by both graphs, and both
report the loop when asked to look for cycles. -/
theorem KeyedGraph.agrees_with_validated_sample :
    3 ≤ maxOrder ∧ ∃ d, Graph.ofOrder 3 [.loops] = .ok d ∧
      let es : List Edge := [⟨0, 1⟩, ⟨1, 1⟩, ⟨1, 2⟩]
      let d := d.replay es
      let k := (numbered 3).replay (es.map fun e => .edge e.source e.target)
      k.successors 1 = [1, 2] ∧
        (d.addEdge 1 1).1 = .error (.duplicate 1 1) ∧
        (k.addEdge 1 1).1 = .error (.duplicateEdge 1 1) ∧
        k.sort { detectCycles := true } () = (.error (.sort (.cycle 1 1)), ()) := by
  have hn : 3 ≤ maxOrder := by decide
  obtain ⟨d, hd, hagrees⟩ := agrees_with_validated (σ := Unit) hn
  refine ⟨hn, d, hd, ?_⟩
  obtain rfl : _ = d := Except.ok.inj hd
  intro es d k
  obtain ⟨hsuccessors, hcalls, hsort⟩ := hagrees es (by decide)
  have hsecond : (d.addEdge 1 1).1 = .error (.duplicate 1 1) := by decide
  refine ⟨(hsuccessors 1).trans (by decide), hsecond, ?_, ?_⟩
  · rcases hcalls 1 1 (by decide) (by decide) with ⟨hok, -⟩ | ⟨-, hrefused⟩
    · cases hok.symm.trans hsecond
    · exact hrefused
  · exact (hsort { detectCycles := true } ()).1.trans (by cbv)

end TopologicalOrder
