import Mathlib
import TopologicalOrder.Proofs.Detection
import TopologicalOrder.Proofs.Representation
import TopologicalOrder.Proofs.Visits

/-!
# Searching more vertices

The number of vertices enters a search twice: as the number of roots, and as the bound that
successors are held against. If a search over `0 … n - 1` succeeds, every successor it met
is below `n`, so a larger bound would not have changed it. A search over `0 … m - 1` with
`n ≤ m` therefore begins with the same visits: its state is the state of the smaller
search with white vertices added at the end (`Search.widen`), and nothing that the smaller
search does can see them (`Search.Sweeps.widen`). Only then come the roots from `n` on.

So the calls of the smaller search are the first calls of the larger one, and what it
finishes is finished first. In a validated graph of order `n` the vertices from `n` on have
no successors and none of them is a successor, so each is visited and finished in its turn
(`Search.exists_sweeps_of_isolated`), and in the sort they come first, the largest one
leading (`wider_range_keeps_result`).
-/

namespace TopologicalOrder

variable {σ : Type}

/-- The numbers `n … m - 1` in ascending order. -/
def between (n m : Nat) : List Int := (List.range' n (m - n)).map Int.ofNat

theorem vertices_eq_append {n m : Nat} (h : n ≤ m) : vertices m = vertices n ++ between n m := by
  have hrange := List.range'_append_1 (s := 0) (m := n) (n := m - n)
  rw [Nat.zero_add, Nat.add_sub_cancel' h] at hrange
  rw [vertices, vertices, between, ← List.map_append, List.range_eq_range', ← hrange,
    List.range_eq_range']

theorem mem_between {n m : Nat} {v : Int} : v ∈ between n m ↔ n ≤ v ∧ v < m := by
  unfold between
  simp only [List.mem_map, List.mem_range'_1]
  constructor
  · rintro ⟨i, hi, rfl⟩
    simp only [Int.ofNat_eq_natCast]
    omega
  · rintro ⟨hn, hm⟩
    exact ⟨v.toNat, by omega, Int.toNat_of_nonneg (by omega)⟩

theorem isVertex_of_mem_between {n m : Nat} {v : Int} (h : v ∈ between n m) : IsVertex m v := by
  obtain ⟨hn, hm⟩ := mem_between.mp h
  exact ⟨by omega, hm⟩

theorem nodup_between (n m : Nat) : (between n m).Nodup :=
  (List.nodup_range' (s := n) (n := m - n)).map fun _ _ h => Int.ofNat_inj.mp h

namespace Search

variable {t : Task σ} {s r : Search σ} {u v : Int} {us vs : List Int}

/-! ## More vertices -/

/-- **The state with `k` more vertices**, none of them discovered. -/
def widen (k : Nat) (s : Search σ) : Search σ :=
  { s with colors := s.colors ++ Array.replicate k .white }

@[simp] theorem order_widen (k : Nat) (s : Search σ) : (s.widen k).order = s.order + k := by
  simp [widen, order]

/-- What is no vertex of a search is white. -/
theorem color_of_order_le (h : s.order ≤ v) : s.color v = .white := by
  have hsize : s.colors.size ≤ v.toNat := by
    unfold order at h
    omega
  rw [color, Array.getD_eq_getD_getElem?, Array.getElem?_eq_none hsize]
  rfl

/-- **The new vertices are white and the colours of the others unchanged.** -/
@[simp] theorem color_widen (k : Nat) (s : Search σ) (v : Int) :
    (s.widen k).color v = s.color v := by
  simp only [color, widen, Array.getD_eq_getD_getElem?, Array.getElem?_append,
    Array.getElem?_replicate]
  split
  · rfl
  · rename_i hsize
    rw [Array.getElem?_eq_none (Nat.le_of_not_lt hsize)]
    split <;> rfl

theorem widen_start {n m : Nat} (h : n ≤ m) (c : σ) : (start n c).widen (m - n) = start m c := by
  simp only [widen, start, Array.replicate_append_replicate, Nat.add_sub_cancel' h]

theorem isVertex_widen (hv : IsVertex s.order v) (k : Nat) : IsVertex (s.widen k).order v := by
  rw [order_widen]
  exact ⟨hv.1, by have := hv.2; push_cast; omega⟩

theorem paint_widen (hv : IsVertex s.order v) (k : Nat) (c : Color) :
    (s.widen k).paint v c = (s.paint v c).widen k := by
  have hlt : v.toNat < s.colors.size := by
    obtain ⟨h0, hn⟩ := hv
    unfold order at hn
    omega
  simp only [paint, widen, Array.setIfInBounds_append_left hlt]

/-! ## What the smaller search does is done in the larger one -/

theorem announce_widen (hook : Option (Hook σ)) (v : Int) (k : Nat) (s : Search σ) :
    announce hook v (s.widen k) = (announce hook v s).map id (widen k) := by
  cases hook <;> rfl

theorem discover_widen (hv : IsVertex s.order v) (k : Nat)
    (h : discover t v s = (.ok us, r)) : discover t v (s.widen k) = (.ok us, r.widen k) := by
  obtain ⟨hwatch, hcall, rfl⟩ := discover_eq_ok.mp h
  refine discover_eq_ok.mpr ⟨hwatch, ?_, rfl⟩
  rw [paint_widen hv, announce_widen, hcall]
  rfl

theorem finish_widen (hv : IsVertex s.order v) (k : Nat) (h : finish t v s = (.ok (), r)) :
    finish t v (s.widen k) = (.ok (), r.widen k) := by
  obtain ⟨q, hcall, rfl⟩ := finish_eq_ok.mp h
  have hq : IsVertex q.order v := order_congr (colors_of_announce hcall).1 ▸ hv
  refine finish_eq_ok.mpr ⟨q.widen k, ?_, ?_⟩
  · rw [announce_widen, hcall]
    rfl
  · have hpaint := congrArg colors (paint_widen hq k .black)
    simp only [retire, widen, paint] at hpaint ⊢
    rw [hpaint]

/-- An edge that is not refused leads to a vertex, and calls for the same among more
vertices. -/
theorem examine_widen {descend : Bool} (k : Nat) (h : examine t v u s = .ok descend) :
    examine t v u (s.widen k) = .ok descend := by
  by_cases hu : IsVertex s.order u
  · rw [examine_of_isVertex t v hu] at h
    rw [examine_of_isVertex t v (isVertex_widen hu k), color_widen]
    exact h
  · rw [examine_of_not_isVertex t v hu] at h
    cases h

/-- **A visit that succeeds is the same visit among more vertices.** -/
theorem Explores.widen (h : Explores t v us s r) (hv : IsVertex s.order v) (k : Nat) :
    Explores t v us (s.widen k) (r.widen k) := by
  induction h with
  | leave hfinish => exact .leave (finish_widen hv k hfinish)
  | pass hexamine _ ih => exact .pass (examine_widen k hexamine) (ih hv)
  | descend hexamine hdiscover hvisit _ ih₁ ih₂ =>
    obtain ⟨hu, hwhite⟩ := examine_eq_descend.mp hexamine
    have hprogress := (hvisit.progress_of_discover hu hwhite hdiscover).1
    exact .descend (examine_widen k hexamine) (discover_widen hu k hdiscover)
      (ih₁ (order_of_discover hdiscover ▸ hu)) (ih₂ (hprogress.order_eq ▸ hv))

/-- **The visits of the roots are the same visits among more vertices.** -/
theorem Sweeps.widen (h : Sweeps t vs s r) (hvs : ∀ v ∈ vs, IsVertex s.order v) (k : Nat) :
    Sweeps t vs (s.widen k) (r.widen k) := by
  induction h with
  | done s => exact .done _
  | skip hcolor _ ih =>
    rw [← color_widen k] at hcolor
    exact .skip hcolor (ih (List.forall_mem_cons.mp hvs).2)
  | root hwhite hdiscover hvisit _ ih =>
    obtain ⟨hv, hvs⟩ := List.forall_mem_cons.mp hvs
    have hprogress := (hvisit.progress_of_discover hv hwhite hdiscover).1
    rw [← color_widen k] at hwhite
    exact .root hwhite (discover_widen hv k hdiscover)
      (hvisit.widen (order_of_discover hdiscover ▸ hv) k)
      (ih fun w hw => hprogress.order_eq ▸ hvs w hw)

/-! ## Isolated vertices -/

theorem exists_discover (ht : t.options.Unhindered) (v : Int) (s : Search σ) :
    ∃ r, discover t v s = (.ok (t.successors v), r) := by
  cases h : discover t v s with
  | mk found r =>
    cases found with
    | ok us => exact ⟨r, by rw [(discover_eq_ok.mp h).2.2]⟩
    | error e =>
      rcases discover_eq_error h with ⟨cause, hwatch, -⟩ | ⟨call, reason, hhook, hfail, -⟩
      · cases (ht.watch s.client).symm.trans hwatch
      · cases (ht.onVisit call hhook v s.client).symm.trans hfail

theorem exists_finish (ht : t.options.Unhindered) (v : Int) (s : Search σ) :
    ∃ r, finish t v s = (.ok (), r) := by
  cases h : finish t v s with
  | mk out r =>
    cases out with
    | ok => exact ⟨r, rfl⟩
    | error e =>
      obtain ⟨call, reason, hhook, hfail, -⟩ := finish_eq_error h
      cases (ht.onExit call hhook v s.client).symm.trans hfail

/-- **White roots without successors are finished one after the other**, if the client does
not stop the search. -/
theorem exists_sweeps_of_isolated (ht : t.options.Unhindered)
    (hvs : ∀ v ∈ vs, IsVertex s.order v ∧ s.color v = .white ∧ t.successors v = [])
    (hnodup : vs.Nodup) :
    ∃ r, Sweeps t vs s r ∧ r.finished.toList = s.finished.toList ++ vs := by
  induction vs generalizing s with
  | nil => exact ⟨s, .done s, (List.append_nil _).symm⟩
  | cons v vs ih =>
    obtain ⟨⟨hv, hwhite, hnone⟩, hvs⟩ := List.forall_mem_cons.mp hvs
    obtain ⟨hnot, hnodup⟩ := List.nodup_cons.mp hnodup
    obtain ⟨p, hdiscover⟩ := exists_discover ht v s
    obtain ⟨q, hfinish⟩ := exists_finish ht v p
    rw [hnone] at hdiscover
    have hvisit : Explores t v [] p q := .leave hfinish
    have horder := (hvisit.progress_of_discover hv hwhite hdiscover).1.order_eq
    have hp : p.order = s.order := order_of_discover hdiscover
    -- only `v` has changed its colour
    have hlater : ∀ w ∈ vs, IsVertex q.order w ∧ q.color w = .white ∧ t.successors w = [] := by
      intro w hw
      obtain ⟨hvertex, hcolor, hempty⟩ := hvs w hw
      have hne : w ≠ v := fun h => hnot (h ▸ hw)
      refine ⟨horder ▸ hvertex, ?_, hempty⟩
      rw [color_of_finish hp hv hfinish hvertex, if_neg hne,
        color_of_discover rfl hv hdiscover hvertex, if_neg hne, hcolor]
    obtain ⟨r, hrest, hfinished⟩ := ih hlater hnodup
    refine ⟨r, .root hwhite hdiscover hvisit hrest, ?_⟩
    rw [hfinished, finished_of_finish hfinish, finished_of_discover hdiscover, List.append_assoc]
    rfl

end Search

/-! ## The whole search -/

section

variable {g : Successors} {n m : Int} {o : Options σ} {c c' : σ} {order : Array Int}

/-- **A larger search goes on where a smaller one has succeeded.** -/
theorem finishOrder_widen (hm : n ≤ m) (h : finishOrder (some g) n o c = (.ok order, c')) :
    ∃ s : Search σ, s.finished = order ∧ s.client = c' ∧ s.order = m.toNat ∧
      (∀ v ∈ between n.toNat m.toNat, s.color v = .white) ∧
      Search.sweep ⟨g, o⟩ (vertices m.toNat) (Search.start m.toNat c) =
        Search.sweep ⟨g, o⟩ (between n.toNat m.toNat) s := by
  obtain ⟨hn, s, hsweeps, rfl, rfl⟩ := finishOrder_eq_ok.mp h
  have hle : n.toNat ≤ m.toNat := by omega
  have hvs := Search.isVertex_start n.toNat c
  have horder : s.order = n.toNat := (hsweeps.progress hvs).order_eq.trans (Search.order_start _ c)
  have hwide := hsweeps.widen hvs (m.toNat - n.toNat)
  rw [Search.widen_start hle] at hwide
  refine ⟨s.widen (m.toNat - n.toNat), rfl, rfl, ?_, fun v hv => ?_, ?_⟩
  · rw [Search.order_widen, horder, Nat.add_sub_cancel' hle]
  · rw [Search.color_widen]
    exact Search.color_of_order_le (horder ▸ (mem_between.mp hv).1)
  · rw [vertices_eq_append hle, hwide.sweep_append]

theorem snd_finishOrder (g : Successors) (hn : 0 ≤ n) (o : Options σ) (c : σ) :
    (finishOrder (some g) n o c).2 =
      (Search.sweep ⟨g, o⟩ (vertices n.toNat) (Search.start n.toNat c)).2.client := by
  rw [finishOrder, if_neg (Int.not_lt.mpr hn)]
  cases Search.sweep ⟨g, o⟩ (vertices n.toNat) (Search.start n.toNat c) with
  | mk out s => cases out <;> rfl

/-- The larger search takes the client further than the smaller one, also if it fails. -/
theorem advances_of_wider {R : σ → σ → Prop} (ho : o.Advances R) (hm : n ≤ m)
    (h : finishOrder (some g) n o c = (.ok order, c')) : R c' (finishOrder (some g) m o c).2 := by
  have hn : 0 ≤ m := (finishOrder_eq_ok.mp h).1.trans hm
  obtain ⟨s, -, rfl, -, -, hsweep⟩ := finishOrder_widen hm h
  rw [snd_finishOrder g hn, hsweep]
  exact Search.sweep_advances (t := ⟨g, o⟩) ho _ s

/-- What the smaller search has finished is finished first in the larger one. -/
theorem prefix_of_wider {order' : Array Int} {d : σ} (hm : n ≤ m)
    (h : finishOrder (some g) n o c = (.ok order, c'))
    (hwide : finishOrder (some g) m o c = (.ok order', d)) : order.toList <+: order'.toList := by
  obtain ⟨s, rfl, -, horder, -, hsweep⟩ := finishOrder_widen hm h
  obtain ⟨-, r, hall, rfl, -⟩ := finishOrder_eq_ok.mp hwide
  rw [← Search.sweep_eq_ok, hsweep, Search.sweep_eq_ok] at hall
  exact (hall.progress fun v hv => horder ▸ isVertex_of_mem_between hv).finished

/-- **Isolated vertices beyond the smaller range are finished last**, in ascending order. -/
theorem finishOrder_of_isolated (ho : o.Unhindered) (hm : n ≤ m)
    (hnone : ∀ v ∈ between n.toNat m.toNat, g v = [])
    (h : finishOrder (some g) n o c = (.ok order, c')) :
    ∃ d, finishOrder (some g) m o c =
      (.ok (order ++ (between n.toNat m.toNat).toArray), d) := by
  have hn : 0 ≤ m := (finishOrder_eq_ok.mp h).1.trans hm
  obtain ⟨s, rfl, -, horder, hwhite, hsweep⟩ := finishOrder_widen hm h
  have hvs : ∀ v ∈ between n.toNat m.toNat,
      IsVertex s.order v ∧ s.color v = .white ∧ g v = [] := fun v hv =>
    ⟨horder ▸ isVertex_of_mem_between hv, hwhite v hv, hnone v hv⟩
  obtain ⟨r, hrest, hfinished⟩ :=
    Search.exists_sweeps_of_isolated (t := ⟨g, o⟩) ho hvs (nodup_between _ _)
  rw [← Search.sweep_eq_ok, ← hsweep, Search.sweep_eq_ok] at hrest
  refine ⟨r.client, finishOrder_eq_ok.mpr ⟨hn, r, hrest, ?_, rfl⟩⟩
  rw [← Array.toList_inj, hfinished, Array.toList_append]

end

/-- A search that its client does not stop succeeds on a closed graph, as the sort does. -/
theorem exists_finishOrder_of_closed {g : Successors} {n : Nat} {o : Options σ} {c : σ}
    (hg : g.Closed n) (ho : o.Unhindered) (hoff : o.detectCycles = false) :
    ∃ order, (finishOrder (some g) n o c).1 = .ok order := by
  obtain ⟨order, hsort⟩ := exists_order_of_closed (c := c) hg ho hoff
  rw [topologicalSort] at hsort
  cases h : finishOrder (some g) n o c with
  | mk out d =>
    rw [h] at hsort
    cases out with
    | ok xs => exact ⟨xs, rfl⟩
    | error e => cases hsort

/-- A search without a client leaves the state of the client alone. -/
theorem snd_finishOrder_unattended (g : Successors) (n : Nat) (st : Strategy) (c : σ) :
    (finishOrder (some g) n { strategy := st } c).2 = c := by
  have hidle : ({ strategy := st } : Options σ).Advances fun c d => d = c :=
    ⟨fun _ => rfl, fun h₁ h₂ => h₂.trans h₁, fun _ _ => rfl, fun _ _ => rfl⟩
  rw [snd_finishOrder g (Int.natCast_nonneg n)]
  exact Search.sweep_advances (t := ⟨g, { strategy := st }⟩) hidle _ _

/-- **The sort of a graph over a range beyond its vertices** puts the numbers from its order
on first, the largest one leading. -/
theorem Graph.WellFormed.topologicalSort_wider {g : Graph} (hg : g.WellFormed) {m : Nat}
    (hm : g.order ≤ m) (st : Strategy) (c : σ) :
    ∃ order : Array Int,
      topologicalSort (some g.successors) g.order { strategy := st } c = (.ok order, c) ∧
        topologicalSort (some g.successors) m { strategy := st } c =
          (.ok ((between g.order m).reverse.toArray ++ order), c) := by
  have hfree := Options.unhindered_unattended (σ := σ) st false
  obtain ⟨xs, hxs⟩ := exists_finishOrder_of_closed (c := c) hg.closed hfree rfl
  have hnone : ∀ v ∈ between g.order m, g.successors v = [] := fun v hv =>
    successors_of_not_isVertex fun hvertex =>
      absurd hvertex.2 (not_lt.mpr (mem_between.mp hv).1)
  obtain ⟨d, hwide⟩ := finishOrder_of_isolated hfree (Int.ofNat_le.mpr hm) hnone
    (Prod.ext hxs rfl)
  have hsmall : finishOrder (some g.successors) g.order { strategy := st } c = (.ok xs, c) :=
    Prod.ext hxs (snd_finishOrder_unattended _ _ st c)
  have hd : d = c := by
    rw [← snd_finishOrder_unattended g.successors m st c, hwide]
  refine ⟨reverse xs, by rw [topologicalSort, hsmall], ?_⟩
  rw [topologicalSort, hwide, hd]
  refine Prod.ext (congrArg Except.ok ?_) rfl
  rw [← Array.toList_inj, toList_reverse, Array.toList_append, List.reverse_append,
    Array.toList_append, toList_reverse]
  rfl

/-- **A larger search keeps what a smaller one has found.** Whatever the graph, the options
and the client: if a search over `0 … n - 1` succeeds, its calls are the first calls of every
search over `0 … m - 1` with `n ≤ m`, also if that one fails, and if it succeeds, its finish
order begins with that of the smaller search. A graph of order `n`, however it was built, is
sorted over any such range if there is no client and cycles are not looked for, and the
sort over `0 … m - 1` is `m - 1, …, n` followed by the sort over `0 … n - 1`. -/
theorem wider_range_keeps_result :
    (∀ (g : Successors) (n m : Int) (o : Options σ) (c c' : σ) (order : Array Int) (calls : Calls),
      n ≤ m → finishOrder (some g) n o.recorded (c, []) = (.ok order, (c', calls)) →
        let wide := finishOrder (some g) m o.recorded (c, [])
        calls <+: wide.2.2 ∧
          ∀ order' : Array Int, wide.1 = .ok order' → order.toList <+: order'.toList) ∧
      ∀ (g : Graph) (m : Nat) (st : Strategy) (c : σ), g.Built → g.order ≤ m →
        ∃ order : Array Int,
          topologicalSort (some g.successors) g.order { strategy := st } c = (.ok order, c) ∧
            topologicalSort (some g.successors) m { strategy := st } c =
              (.ok ((between g.order m).reverse.toArray ++ order), c) := by
  refine ⟨fun g n m o c c' order calls hm h => ⟨?_, fun order' hok => ?_⟩,
    fun g m st c hg hm => hg.wellFormed.topologicalSort_wider hm st c⟩
  · exact advances_of_wider o.recorded_advances hm h
  · exact prefix_of_wider hm h (Prod.ext hok rfl)

/-- With a third vertex the search fails at a successor of it, after the calls for the first
two. A graph of two vertices is sorted among five, the other three before its own. -/
theorem wider_range_keeps_result_samples :
    let g := (Adjacency.ofList [(0, [1]), (1, [0, 1]), (2, [1, 7])]).successors
    let o : Options Unit :=
      { onVisit := some (fun _ s => (none, s)), onExit := some (fun _ s => (none, s)) }
    let calls : Calls := [(.visit, 0), (.visit, 1), (.exit, 1), (.exit, 0)]
    let wide := finishOrder (some g) 3 o.recorded ((), [])
    let path : Graph := { order := 2, looped := false, lists := #[[1], []], edgeCount := 1 }
    (finishOrder (some g) 2 o.recorded ((), []) = (.ok #[1, 0], ((), calls)) ∧
        wide.1 = .error (.outOfRange 7 2 3) ∧ calls <+: wide.2.2) ∧
      topologicalSort (some path.successors) 2 {} () = (.ok #[0, 1], ()) ∧
        topologicalSort (some path.successors) 5 {} () = (.ok #[4, 3, 2, 0, 1], ()) := by
  intro g o calls wide path
  have hrun : finishOrder (some g) 2 o.recorded ((), []) = (.ok #[1, 0], ((), calls)) := by cbv
  have hfail : (finishOrder (some g) 3 o.recorded ((), [])).1 = .error (.outOfRange 7 2 3) := by cbv
  have hpath : path.Built := .ofEdges (show Graph.ofEdges 2 [⟨0, 1⟩] [] = .ok path from rfl)
  have hnarrow : topologicalSort (some path.successors) 2 {} () = (.ok #[0, 1], ()) := by cbv
  obtain ⟨hkeeps, hgraphs⟩ := wider_range_keeps_result (σ := Unit)
  refine ⟨⟨hrun, hfail, (hkeeps g 2 3 o () () #[1, 0] calls (by decide) hrun).1⟩, hnarrow, ?_⟩
  obtain ⟨order, hsort, hwide⟩ := hgraphs path 5 .stack () hpath (by decide)
  obtain rfl := Except.ok.inj (congrArg Prod.fst (hnarrow.symm.trans hsort))
  exact hwide

end TopologicalOrder
