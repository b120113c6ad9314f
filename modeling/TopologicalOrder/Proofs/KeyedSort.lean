import Mathlib
import TopologicalOrder.Proofs.Detection
import TopologicalOrder.Proofs.KeyedHistory

/-!
# Sorting keys

A keyed graph is sorted through its numbers: the search sees the numbers only, and the
order it gives is handed out as keys. What is known of the search carries over because
numbers and keys are in bijection and an edge leads from number to number as it does from
key to key. So a path of numbers is a path of keys and the other way round
(`KeyedGraph.WellFormed.transGen_keys`, `KeyedGraph.WellFormed.transGen_numbers`), which
is all that the statements about sorts speak of.

Together with what a sequence of calls leaves behind, this describes a keyed graph from
end to end in terms of the calls alone (`KeyedGraph.sort_of_every_history`).
-/

namespace TopologicalOrder.KeyedGraph

variable {K σ : Type} [Inhabited K] {g : KeyedGraph K} {a b : K} {w x : Int}

/-! ## Numbers and keys -/

/-- The keys of all numbers are all keys. -/
theorem keysOf_vertices (g : KeyedGraph K) : g.keysOf (vertices g.order) = g.keys := by
  unfold keysOf vertices keys
  rw [List.map_map]
  refine List.ext_getElem (by simp [order, Interner.size]) fun i _ hi => ?_
  rw [List.getElem_map, List.getElem_range]
  show (g.ids.key? (i : Int)).getD default = _
  rw [Interner.key?_natCast, ← Array.getElem?_toList, List.getElem?_eq_getElem hi, Option.getD_some]

/-- **To sort keys is to sort numbers**: an order is handed out as keys, and a failure as it
is. -/
theorem sort_eq (g : KeyedGraph K) (o : Options σ) (c : σ) :
    g.sort o c = Prod.map
      (fun r => (r.map fun order => g.keysOf order.toList).mapError KeyedError.sort) id
      (topologicalSort (some g.successors) g.order o c) := by
  unfold sort
  cases topologicalSort (some g.successors) g.order o c with
  | mk answer c' => cases answer <;> rfl

variable [BEq K]

/-! ## Paths of numbers and paths of keys -/

/-- **Paths carry over along a relation under which each step does.** -/
theorem transGen_transport {α β : Type} {r : α → α → Prop} {s : β → β → Prop}
    {N : α → β → Prop} (hstep : ∀ {x y : α} {a : β}, N x a → r x y → ∃ b, N y b ∧ s a b)
    {x y : α} {a : β} (hx : N x a) (h : Relation.TransGen r x y) :
    ∃ b, N y b ∧ Relation.TransGen s a b := by
  induction h with
  | single hr =>
    obtain ⟨b, hb, hs⟩ := hstep hx hr
    exact ⟨b, hb, .single hs⟩
  | tail _ hr ih =>
    obtain ⟨b, hb, hpath⟩ := ih
    obtain ⟨c, hc, hs⟩ := hstep hb hr
    exact ⟨c, hc, hpath.tail hs⟩

/-- An edge from key to key. -/
def Leads (g : KeyedGraph K) (a b : K) : Prop := b ∈ g.targets a

omit [Inhabited K] in
/-- Every edge leads to a number in use. -/
theorem WellFormed.closed (h : g.WellFormed) : g.successors.Closed g.order :=
  fun w _ => (h.successors_ok w).1

section Lawful

variable [LawfulBEq K]

omit [Inhabited K] in
theorem WellFormed.key?_inj (h : g.WellFormed) (hw : g.ids.key? w = some a)
    (hx : g.ids.key? x = some a) : w = x := by
  obtain ⟨i, rfl, hi⟩ := h.ids.key?_eq_some.mp hw
  obtain ⟨j, rfl, hj⟩ := h.ids.key?_eq_some.mp hx
  rw [Option.some.inj (hi.symm.trans hj)]

/-- **An edge of numbers is an edge of keys.** -/
theorem WellFormed.leads_of_mem (h : g.WellFormed) (hw : g.ids.key? w = some a)
    (hx : x ∈ g.successors w) : ∃ b, g.ids.key? x = some b ∧ g.Leads a b := by
  obtain ⟨b, hb⟩ := exists_key (h.isVertex_of_mem hx).2
  obtain ⟨i, rfl, hi⟩ := h.ids.key?_eq_some.mp hw
  obtain ⟨j, rfl, hj⟩ := h.ids.key?_eq_some.mp hb
  exact ⟨b, hb, (h.mem_targets hi hj).mpr hx⟩

/-- **An edge of keys is an edge of numbers.** -/
theorem WellFormed.mem_of_leads (h : g.WellFormed) (hw : g.ids.key? w = some a)
    (hab : g.Leads a b) : ∃ x, g.ids.key? x = some b ∧ x ∈ g.successors w := by
  obtain ⟨i, rfl, hi⟩ := h.ids.key?_eq_some.mp hw
  obtain ⟨-, j, -, hj⟩ := h.lookup_of_mem_targets hab
  exact ⟨j, h.ids.key?_eq_some.mpr ⟨j, rfl, hj⟩, (h.mem_targets hi hj).mp hab⟩

theorem WellFormed.transGen_keys (h : g.WellFormed) (hw : g.ids.key? w = some a)
    (hpath : Relation.TransGen g.successors.Edge w x) :
    ∃ b, g.ids.key? x = some b ∧ Relation.TransGen g.Leads a b :=
  transGen_transport (N := fun w a => g.ids.key? w = some a) h.leads_of_mem hw hpath

theorem WellFormed.transGen_numbers (h : g.WellFormed) (hw : g.ids.key? w = some a)
    (hpath : Relation.TransGen g.Leads a b) :
    ∃ x, g.ids.key? x = some b ∧ Relation.TransGen g.successors.Edge w x :=
  transGen_transport (N := fun a w => g.ids.key? w = some a) h.mem_of_leads hw hpath

/-- **A key that leads nowhere near another does not do so by number either.** -/
theorem WellFormed.not_reaches (h : g.WellFormed) (hw : g.ids.key? w = some a)
    (hx : g.ids.key? x = some b) (hback : ¬ Relation.ReflTransGen g.Leads b a) :
    ¬ g.successors.Reaches x w := by
  intro hreaches
  rcases Relation.reflTransGen_iff_eq_or_transGen.mp hreaches with rfl | hpath
  · obtain rfl : a = b := Option.some.inj (hw.symm.trans hx)
    exact hback .refl
  · obtain ⟨c, hc, hkeys⟩ := h.transGen_keys hx hpath
    obtain rfl : a = c := Option.some.inj (hw.symm.trans hc)
    exact hback hkeys.to_reflTransGen

/-- **There is a cycle of numbers exactly if there is one of keys.** -/
theorem WellFormed.acyclic_iff (h : g.WellFormed) :
    g.successors.Acyclic g.order ↔ ∀ k, ¬ Relation.TransGen g.Leads k k := by
  rw [Successors.acyclic_iff fun w x hx => h.isVertex_of_mem hx]
  constructor
  · intro hnumbers k hcycle
    -- a cycle of keys starts at a vertex, and comes back to its number
    obtain ⟨b, hkb, -⟩ := Relation.TransGen.head'_iff.mp hcycle
    obtain ⟨i, -, hi, -⟩ := h.lookup_of_mem_targets hkb
    have hkey : g.ids.key? (i : Int) = some k := h.ids.key?_eq_some.mpr ⟨i, rfl, hi⟩
    obtain ⟨x, hx, hpath⟩ := h.transGen_numbers hkey hcycle
    rw [h.key?_inj hx hkey] at hpath
    exact hnumbers i hpath
  · intro hkeys w hcycle
    obtain ⟨x, hwx, -⟩ := Relation.TransGen.head'_iff.mp hcycle
    obtain ⟨a, ha⟩ := exists_key (h.isVertex_of_mem hwx).1
    obtain ⟨b, hb, hpath⟩ := h.transGen_keys ha hcycle
    obtain rfl : a = b := Option.some.inj (ha.symm.trans hb)
    exact hkeys a hpath

end Lawful

/-! ## Sorting -/

section Lawful

variable [LawfulBEq K]

/-- **Without looking for cycles a sort of keys always succeeds**, lists every key once, and
places the source of an edge before its target unless the target leads back. -/
theorem WellFormed.exists_sort (h : g.WellFormed) (st : Strategy) (c : σ) :
    ∃ order, (g.sort { strategy := st } c).1 = .ok order ∧ order.Perm g.keys ∧
      ∀ a b, g.Leads a b → ¬ Relation.ReflTransGen g.Leads b a →
        order.idxOf a < order.idxOf b := by
  obtain ⟨order, horder⟩ : ∃ order,
      (topologicalSort (some g.successors) g.order { strategy := st } c).1 = .ok order :=
    exists_order_of_closed h.closed (Options.unhindered_unattended st false) rfl
  obtain ⟨xs, hlist, rfl⟩ := finishOrder_of_topologicalSort horder
  have hperm : (g.keysOf (reverse xs).toList).Perm g.keys := by
    rw [← keysOf_vertices]
    exact hlist.perm_reverse.map _
  refine ⟨g.keysOf (reverse xs).toList, ?_, hperm, fun a b hab hback => ?_⟩
  · rw [sort_eq]
    show ((topologicalSort (some g.successors) g.order { strategy := st } c).1.map _).mapError _ = _
    rw [horder]
    rfl
  · obtain ⟨i, j, hi, hj⟩ := h.lookup_of_mem_targets hab
    have ha : g.ids.key? (i : Int) = some a := h.ids.key?_eq_some.mpr ⟨i, rfl, hi⟩
    have hb : g.ids.key? (j : Int) = some b := h.ids.key?_eq_some.mpr ⟨j, rfl, hj⟩
    have hedge : (j : Int) ∈ g.successors i := (h.mem_targets hi hj).mp hab
    refine idxOf_lt_of_sublist (hperm.nodup_iff.mpr h.ids.nodup) ?_
    -- the numbers stand in this order, and so do their keys
    rcases hlist.before i (h.isVertex_of_mem hedge).1 j hedge with hsub | ⟨-, hreaches⟩
    · rw [toList_reverse]
      have hpair : g.keysOf [(i : Int), (j : Int)] = [a, b] := by simp [keysOf, ha, hb]
      rw [← hpair]
      exact hsub.reverse.map _
    · exact absurd hreaches (h.not_reaches ha hb hback)

/-- **Looking for cycles, a sort of keys fails exactly if there is one**, and says so. -/
theorem WellFormed.sort_detecting (h : g.WellFormed) (st : Strategy) (c : σ) :
    let answer := (g.sort { strategy := st, detectCycles := true } c).1
    ((∃ e, answer = .error e) ↔ ∃ k, Relation.TransGen g.Leads k k) ∧
      ∀ e, answer = .error e → ∃ v u, e = .sort (.cycle v u) := by
  intro answer
  set sorted := topologicalSort (some g.successors) g.order
    ({ strategy := st, detectCycles := true } : Options σ) c with hsorted
  have hanswer : answer =
      (sorted.1.map fun order => g.keysOf order.toList).mapError KeyedError.sort :=
    congrArg Prod.fst (sort_eq g _ c)
  have herror : ∀ e, answer = .error e → ∃ e', sorted.1 = .error e' ∧ e = .sort e' := by
    intro e he
    rw [hanswer] at he
    cases hs : sorted.1 with
    | ok order => rw [hs] at he; cases he
    | error e' => rw [hs] at he; exact ⟨e', rfl, (Except.error.inj he).symm⟩
  have hcyclic : (∃ e, sorted.1 = .error e) ↔ ¬ g.successors.Acyclic g.order :=
    exists_error_iff_not_acyclic h.closed (Options.unhindered_unattended st true) rfl
  refine ⟨?_, fun e he => ?_⟩
  · rw [h.acyclic_iff] at hcyclic
    push Not at hcyclic
    rw [← hcyclic]
    constructor
    · rintro ⟨e, he⟩
      obtain ⟨e', hs, -⟩ := herror e he
      exact ⟨e', hs⟩
    · rintro ⟨e', hs⟩
      rw [hanswer, hs]
      exact ⟨_, rfl⟩
  · obtain ⟨e', hs, rfl⟩ := herror e he
    rcases (justified_of_topologicalSort hs).of_unattended with
      ⟨u, v, -, hv, hu, hout⟩ | ⟨-, v, u, rfl, -⟩
    · exact absurd (h.closed v hv u hu) hout
    · exact ⟨v, u, rfl⟩

/-! ## From the calls to the order -/

/-- **A keyed graph from end to end, in terms of the calls alone.** Take any sequence of
calls on a graph without vertices, the refused ones included. The keys are those that were
mentioned, each where it was first mentioned, and the edges that were accepted are those
that were asked for, each where it was first asked for. There is one list per key, with
numbers in use and none of them twice; the successors of a key are the targets of its
accepted edges in the order of the calls. With no client to stop it, a sort that does not
look for cycles lists every key once, and every accepted edge whose target does not lead
back to its source goes from an earlier key to a later one; a sort that looks for cycles
fails exactly if the accepted edges have one, and reports one. -/
theorem sort_of_every_history (cs : List (Call K)) :
    let g := replay ({} : KeyedGraph K) cs
    let edges := accepted ({} : KeyedGraph K) cs
    let Edge := fun a b => (a, b) ∈ edges
    (g.keys = (cs.flatMap Call.mentions).eraseDups ∧
        edges = (cs.filterMap Call.edge?).eraseDups) ∧
      (g.order = g.keys.length ∧ g.lists.size = g.keys.length ∧
        ∀ us ∈ g.lists.toList, (∀ u ∈ us, IsVertex g.order u) ∧ us.Nodup) ∧
      (∀ k, (k ∈ g.keys → g.successorKeys k = .ok ((edges.filter (·.1 == k)).map Prod.snd)) ∧
        (k ∉ g.keys → g.successorKeys k = .error (.unknownKey k))) ∧
      ∀ (st : Strategy) (c : σ),
        (∃ order, (g.sort { strategy := st } c).1 = .ok order ∧ order.Perm g.keys ∧
          ∀ a b, Edge a b → ¬ Relation.ReflTransGen Edge b a → order.idxOf a < order.idxOf b) ∧
        ((∃ e, (g.sort { strategy := st, detectCycles := true } c).1 = .error e) ↔
          ∃ k, Relation.TransGen Edge k k) ∧
        ∀ e, (g.sort { strategy := st, detectCycles := true } c).1 = .error e →
          ∃ v u, e = .sort (.cycle v u) := by
  intro g edges Edge
  have h : g.WellFormed := wellFormed_empty.replay cs
  have hedge : Edge = g.Leads := by
    funext a b
    exact propext mem_accepted
  have horder : g.order = g.keys.length := Array.length_toList.symm
  refine ⟨⟨keys_replay cs, accepted_eq cs⟩, ⟨horder, h.size_lists.trans horder, h.list_ok⟩,
    fun k => ?_, fun st c => ?_⟩
  · rw [← targets_replay]
    exact h.successorKeys_eq k
  · rw [hedge]
    exact ⟨h.exists_sort st c, h.sort_detecting st c⟩

/-- Of five calls the third repeats an edge, and the last closes a cycle that the edge from
`a` to `b` is not part of. -/
theorem sort_of_every_history_sample :
    let cs : List (Call String) :=
      [.vertex "c", .edge "a" "b", .edge "a" "b", .edge "b" "c", .edge "c" "b"]
    let g := replay {} cs
    LawfulBEq String ∧ g.keys = ["c", "a", "b"] ∧
      accepted {} cs = [("a", "b"), ("b", "c"), ("c", "b")] ∧
      (∃ order, (g.sort {} ()).1 = .ok order ∧ order.Perm ["c", "a", "b"] ∧
        order.idxOf "a" < order.idxOf "b") ∧
      ∃ v u, (g.sort { detectCycles := true } ()).1 = .error (.sort (.cycle v u)) := by
  intro cs g
  obtain ⟨⟨hkeys, hedges⟩, -, -, hsort⟩ := sort_of_every_history cs
  obtain ⟨⟨order, hok, hperm, hforward⟩, hcyclic, hcycle⟩ := hsort .stack ()
  have hkeys' : g.keys = ["c", "a", "b"] := hkeys.trans (by cbv)
  have hedges' : accepted {} cs = [("a", "b"), ("b", "c"), ("c", "b")] := hedges.trans (by cbv)
  refine ⟨inferInstance, hkeys', hedges', ⟨order, hok, hkeys' ▸ hperm, ?_⟩, ?_⟩
  · refine hforward "a" "b" (by rw [hedges']; simp) fun hback => ?_
    -- no edge leads to `a`
    rcases Relation.ReflTransGen.cases_tail hback with heq | ⟨k, -, hk⟩
    · exact absurd heq (by decide)
    · rw [hedges'] at hk
      simp at hk
  · have hloop : Relation.TransGen (fun a b => (a, b) ∈ accepted {} cs) "b" "b" :=
      .tail (.single (b := "c") (by rw [hedges']; simp)) (by rw [hedges']; simp)
    obtain ⟨e, he⟩ := hcyclic.mpr ⟨"b", hloop⟩
    obtain ⟨v, u, rfl⟩ := hcycle e he
    exact ⟨v, u, he⟩

end Lawful

end TopologicalOrder.KeyedGraph
