import Mathlib
import TopologicalOrder.Proofs.Refusals

/-!
# Which orders suffice for a list of edges

A list of edges that makes a graph of some order makes the same graph of every larger one
that is allowed, up to vertices without edges: an order only has to be above the ends, and
whether it is far above them or not, what decides is that no end is negative, that no edge is
repeated, and the loops (`Graph.exists_ofEdges_iff_of_inferOrder_le`). Below the inferred
order no list makes a graph (`Graph.inferOrder_le_of_ofEdges`). So the inferred order is the
least that suffices, and as good as any other that does.

It need not be one that a graph can have, and then the list is refused for it. That is the
one case in which a list is refused with its inferred order for the order: an order is
judged before any edge is, and what is said about it is not said about anything else
(`Graph.ofEdges_eq_error_iff`).
-/

namespace TopologicalOrder

variable {n k v : Int} {e : Edge} {es : List Edge} {ps : List Permission} {err : GraphError}

/-! ## Orders that are refused -/

/-- A graph is not built because it cannot have so many vertices. -/
def GraphError.AboutOrder : GraphError → Prop
  | .negativeOrder _ => True
  | .orderTooLarge _ => True
  | .badKey _ _ => False
  | .badSuccessor _ => False
  | .badEdge _ _ => False

namespace Graph

variable {g : Graph}

theorem ofOrder_eq_negativeOrder : ofOrder n ps = .error (.negativeOrder k) ↔ n < 0 ∧ n = k := by
  unfold ofOrder
  split
  · simp [*]
  · split <;> simp [*]

theorem ofOrder_eq_orderTooLarge :
    ofOrder n ps = .error (.orderTooLarge k) ↔ maxOrder < n ∧ n = k := by
  unfold ofOrder
  split
  · simp
    omega
  · split <;> simp [*]

/-- **A list is refused for its order exactly if the order is refused**, whatever its edges. -/
theorem ofEdges_eq_error_iff (h : err.AboutOrder) :
    ofEdges n es ps = .error err ↔ ofOrder n ps = .error err := by
  unfold ofEdges
  cases ofOrder n ps with
  | error e => rfl
  | ok g =>
    refine iff_of_false (fun herror => ?_) (fun hstart => nomatch hstart)
    -- from here on edges are refused, and not the order
    obtain ⟨before, e, after, q, fault, -, -, -, rfl⟩ := addEdges_eq_error herror
    exact h

theorem ofEdges_eq_negativeOrder :
    ofEdges n es ps = .error (.negativeOrder k) ↔ n < 0 ∧ n = k := by
  rw [ofEdges_eq_error_iff (show GraphError.AboutOrder (.negativeOrder k) from trivial),
    ofOrder_eq_negativeOrder]

theorem ofEdges_eq_orderTooLarge :
    ofEdges n es ps = .error (.orderTooLarge k) ↔ maxOrder < n ∧ n = k := by
  rw [ofEdges_eq_error_iff (show GraphError.AboutOrder (.orderTooLarge k) from trivial),
    ofOrder_eq_orderTooLarge]

end Graph

/-! ## Orders that suffice -/

/-- A number below an order is a vertex if it is not negative. -/
theorem isVertex_toNat_iff (hv : v < n) : IsVertex n.toNat v ↔ 0 ≤ v := by
  unfold IsVertex
  omega

/-- **Of the order only that it is above the ends of an edge matters.** -/
theorem Edge.admissible_toNat_iff {looped : Bool} (hsource : e.source < n)
    (htarget : e.target < n) :
    e.Admissible n.toNat looped ↔
      0 ≤ e.source ∧ 0 ≤ e.target ∧ (e.source ≠ e.target ∨ looped = true) := by
  unfold Edge.Admissible
  rw [isVertex_toNat_iff hsource, isVertex_toNat_iff htarget]

namespace Graph

variable {g r : Graph}

/-- **An order with which a list makes a graph suffices.** -/
theorem inferOrder_le_of_ofEdges (h : ofEdges n es ps = .ok g) : inferOrder es ≤ n := by
  obtain ⟨⟨h0, hmax⟩, hadmissible, -⟩ := exists_ofEdges_iff.mp ⟨g, h⟩
  rw [inferOrder_eq, orderForAll_le_iff_lt h0 hmax]
  intro v hv
  obtain ⟨e, he, hend⟩ := mem_ends.mp hv
  obtain ⟨⟨-, hsource⟩, ⟨-, htarget⟩, -⟩ := hadmissible e he
  rw [Int.toNat_of_nonneg h0] at hsource htarget
  rcases hend with rfl | rfl
  · exact hsource
  · exact htarget

/-- **With an order that suffices, a list makes a graph or not whatever that order is.** -/
theorem exists_ofEdges_iff_of_inferOrder_le (h : inferOrder es ≤ n) (hn : n ≤ maxOrder) :
    (∃ g, ofEdges n es ps = .ok g) ↔
      (∀ e ∈ es, 0 ≤ e.source ∧ 0 ≤ e.target ∧
        (e.source ≠ e.target ∨ allowsLoops ps = true)) ∧ es.Nodup := by
  have h0 : 0 ≤ n := (inferOrder_eq es ▸ orderForAll_nonneg (ends es)).trans h
  have hedge : ∀ e ∈ es, e.Admissible n.toNat (allowsLoops ps) ↔
      0 ≤ e.source ∧ 0 ≤ e.target ∧ (e.source ≠ e.target ∨ allowsLoops ps = true) := by
    intro e he
    obtain ⟨hsource, htarget⟩ := lt_inferOrder (h.trans hn) he
    exact Edge.admissible_toNat_iff (hsource.trans_le h) (htarget.trans_le h)
  rw [exists_ofEdges_iff, forall₂_congr hedge]
  simp only [h0, hn, true_and]

theorem edges_of_ofEdges (h : ofEdges n es ps = .ok g) :
    g.edges = es.mergeSort fun d e => d.source ≤ e.source := by
  obtain ⟨g₀, hstart, hadds⟩ := ofEdges_eq_ok.mp h
  exact edges_of_adds hstart hadds

/-! ## The result -/

/-- **The inferred order is the least that suffices, and is computed without overflow.**
Whatever the edges: if their ends are signed words of 64 bits, a machine that adds such words
computes the order, and no sum that it takes on the way wraps around. The order is between
zero and the number above the largest order there is. With a smaller one the list is refused.
If no end is negative, then with the inferred order no end is out of range, the order is not
negative, and it is too large exactly if some end is no vertex of the largest graph there is.
With every larger order that is allowed, the list makes a graph exactly if it does with the
inferred one, and the graphs have the same edges. -/
theorem inferOrder_least_sufficient (es : List Edge) :
    Word.ComputesOrder (ends es) (inferOrder es) ∧
      (0 ≤ inferOrder es ∧ inferOrder es ≤ maxOrder + 1) ∧
      (∀ (n : Int) (ps : List Permission), n < inferOrder es →
        ∃ err, ofEdges n es ps = .error err) ∧
      ((∀ e ∈ es, 0 ≤ e.source ∧ 0 ≤ e.target) → ∀ ps : List Permission,
        (∀ err, ofEdges (inferOrder es) es ps = .error err →
          (∀ k, err ≠ .negativeOrder k) ∧ ¬ err.IsOutOfRange) ∧
        ((∃ k, ofEdges (inferOrder es) es ps = .error (.orderTooLarge k)) ↔
          ∃ e ∈ es, maxOrder ≤ e.source ∨ maxOrder ≤ e.target)) ∧
      ∀ (n : Int) (ps : List Permission), inferOrder es ≤ n → n ≤ maxOrder →
        ((∃ g, ofEdges n es ps = .ok g) ↔
          ∃ g, ofEdges (inferOrder es) es ps = .ok g) ∧
        ∀ g r, ofEdges n es ps = .ok g → ofEdges (inferOrder es) es ps = .ok r →
          g.edges = r.edges := by
  have h0 : 0 ≤ inferOrder es := inferOrder_eq es ▸ orderForAll_nonneg _
  refine ⟨inferOrder_eq es ▸ Word.computesOrder_orderForAll _,
    ⟨h0, inferOrder_eq es ▸ orderForAll_le_maxOrder_add_one _⟩, fun n ps hn => ?_,
    fun hes ps => ⟨fun err herr => ⟨?_, not_isOutOfRange_of_inferOrder herr hes⟩, ?_⟩,
    fun n ps hle hn => ⟨?_, fun g r hg hr => ?_⟩⟩
  · cases h : ofEdges n es ps with
    | error err => exact ⟨err, rfl⟩
    | ok g => exact absurd (inferOrder_le_of_ofEdges h) (not_le.mpr hn)
  · rintro k rfl
    exact absurd h0 (not_le.mpr (ofEdges_eq_negativeOrder.mp herr).1)
  · simp only [ofEdges_eq_orderTooLarge, exists_and_left, exists_eq', and_true]
    rw [inferOrder_eq, maxOrder_lt_orderForAll, exists_mem_ends]
  · rw [exists_ofEdges_iff_of_inferOrder_le hle hn,
      exists_ofEdges_iff_of_inferOrder_le (le_refl _) (hle.trans hn)]
  · rw [edges_of_ofEdges hg, edges_of_ofEdges hr]

/-- Two lists at the ends of what a word can hold and of what a graph can have, and one that
is accepted with its inferred order and hence with a larger one. -/
theorem inferOrder_least_sufficient_samples :
    let extreme : List Edge := [⟨0, 2 ^ 63 - 1⟩, ⟨-2 ^ 63, 1⟩]
    let last : List Edge := [⟨maxOrder - 1, 0⟩]
    let small : List Edge := [⟨2, 0⟩, ⟨0, 1⟩]
    ([0, Int64.maxValue, Int64.minValue, 1].map Int64.toInt = ends extreme ∧
        (Word.orderForAll [0, Int64.maxValue, Int64.minValue, 1]).toInt = inferOrder extreme ∧
        inferOrder extreme = maxOrder + 1 ∧ ∃ err, ofEdges maxOrder extreme [.loops] = .error err) ∧
      (inferOrder last = maxOrder ∧
        ¬ ∃ k, ofEdges (inferOrder last) last [] = .error (.orderTooLarge k)) ∧
      inferOrder small = 3 ∧ ∃ g r, ofEdges 3 small [] = .ok r ∧ ofEdges 7 small [] = .ok g ∧
        g.edges = r.edges := by
  intro extreme last small
  have hwords : [0, Int64.maxValue, Int64.minValue, 1].map Int64.toInt = ends extreme := by decide
  have hextreme : inferOrder extreme = maxOrder + 1 := by decide
  have hsmall : inferOrder small = 3 := by decide
  obtain ⟨hword, -, hbelow, -⟩ := inferOrder_least_sufficient extreme
  refine ⟨⟨hwords, (hword _ hwords).2, hextreme, hbelow maxOrder [.loops] (by decide)⟩,
    ⟨by decide, fun hlarge => ?_⟩, hsmall, ?_⟩
  · obtain ⟨-, -, -, hnonneg, -⟩ := inferOrder_least_sufficient last
    obtain ⟨e, he, hend⟩ := ((hnonneg (by decide) []).2).mp hlarge
    obtain rfl := List.mem_singleton.mp he
    exact absurd hend (by decide)
  · obtain ⟨-, -, -, -, habove⟩ := inferOrder_least_sufficient small
    rw [hsmall] at habove
    obtain ⟨hiff, hedges⟩ := habove 7 [] (by decide) (by decide)
    have hrun : ∃ r, ofEdges 3 small [] = .ok r := ⟨_, rfl⟩
    obtain ⟨g, hg⟩ := hiff.mpr hrun
    obtain ⟨r, hr⟩ := hrun
    exact ⟨g, r, hr, hg, hedges g r hg hr⟩

end Graph

end TopologicalOrder
