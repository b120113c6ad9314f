import Mathlib
import TopologicalOrder.Graph.Document

/-!
# The inferred order

A list of edges and an adjacency are read for the order that they need in the same way:
each number that is mentioned asks for the least order that has it as a vertex, and the
largest demand wins. `orderForAll` is that maximum over a plain list of numbers, and both
are cases of it (`inferOrder_eq`, `Adjacency.inferOrder_eq`).

What a number asks for is capped just above the largest order there is, so the maximum
answers two questions at once. Up to that order it is met by exactly the orders that are
above every number (`orderForAll_le_iff_lt`), and it lies beyond if some number is no vertex
of any graph (`maxOrder_lt_orderForAll`). It depends on the numbers alone and not on how
they are told (`orderForAll_eq_of_perm`).

The cap also keeps the sums small. A machine adds signed words of 64 bits, and its sum wraps
around where it does not fit; `Word.orderForAll` is the maximum as a machine computes it. No
sum wraps (`Word.toInt_orderFor`), so it computes the same
(`Word.computesOrder_orderForAll`).
-/

namespace TopologicalOrder

variable {n v : Int} {vs ws : List Int}

/-! ## What one number asks for -/

theorem orderFor_le_maxOrder_add_one (v : Int) : orderFor v ≤ maxOrder + 1 := by
  unfold orderFor
  split <;> omega

/-- **An order meets what a number asks for if it is above it**, up to the largest order. -/
theorem orderFor_le_iff (hn : n ≤ maxOrder) : orderFor v ≤ n ↔ v < n := by
  unfold orderFor
  split <;> omega

/-! ## The largest demand -/

/-- **The least order of a graph that has all these numbers as vertices**, capped just above
the largest order there is. -/
def orderForAll (vs : List Int) : Int := vs.foldl (fun n v => max n (orderFor v)) 0

/-- The ends of the edges of a list, the source of each before its target. -/
def ends (es : List Edge) : List Int := es.flatMap fun e => [e.source, e.target]

/-- **What an adjacency mentions**: its keys, each before its successors. -/
def Adjacency.mentions (a : Adjacency) : List Int := a.entries.flatMap fun x => x.1 :: x.2

theorem mem_ends {es : List Edge} : v ∈ ends es ↔ ∃ e ∈ es, v = e.source ∨ v = e.target := by
  simp [ends]

theorem exists_mem_ends {es : List Edge} {P : Int → Prop} :
    (∃ v ∈ ends es, P v) ↔ ∃ e ∈ es, P e.source ∨ P e.target := by
  simp only [mem_ends]
  constructor
  · rintro ⟨v, ⟨e, he, rfl | rfl⟩, hv⟩
    · exact ⟨e, he, Or.inl hv⟩
    · exact ⟨e, he, Or.inr hv⟩
  · rintro ⟨e, he, hv | hv⟩
    · exact ⟨e.source, ⟨e, he, Or.inl rfl⟩, hv⟩
    · exact ⟨e.target, ⟨e, he, Or.inr rfl⟩, hv⟩

theorem Adjacency.mem_mentions {a : Adjacency} :
    v ∈ a.mentions ↔ ∃ x ∈ a.entries, v = x.1 ∨ v ∈ x.2 := by
  simp [mentions]

/-- A list of edges needs the order that its ends need. -/
theorem inferOrder_eq (es : List Edge) : inferOrder es = orderForAll (ends es) := by
  unfold inferOrder orderForAll ends
  rw [List.foldl_flatMap]
  rfl

/-- An adjacency needs the order that its keys and successors need. -/
theorem Adjacency.inferOrder_eq (a : Adjacency) : a.inferOrder = orderForAll a.mentions := by
  unfold inferOrder orderForAll mentions
  rw [List.foldl_flatMap]
  rfl

theorem foldl_max_orderFor_le_iff {start : Int} :
    vs.foldl (fun n v => max n (orderFor v)) start ≤ n ↔
      start ≤ n ∧ ∀ v ∈ vs, orderFor v ≤ n := by
  induction vs generalizing start with
  | nil => simp
  | cons v vs ih => rw [List.foldl_cons, ih, max_le_iff, List.forall_mem_cons, and_assoc]

/-- **The largest demand is met where every demand is.** -/
theorem orderForAll_le_iff : orderForAll vs ≤ n ↔ 0 ≤ n ∧ ∀ v ∈ vs, orderFor v ≤ n :=
  foldl_max_orderFor_le_iff

theorem orderForAll_nonneg (vs : List Int) : 0 ≤ orderForAll vs :=
  (orderForAll_le_iff.mp (le_refl _)).1

theorem orderForAll_le_maxOrder_add_one (vs : List Int) : orderForAll vs ≤ maxOrder + 1 :=
  orderForAll_le_iff.mpr ⟨by decide, fun v _ => orderFor_le_maxOrder_add_one v⟩

/-- **The orders that suffice are those above every number**, up to the largest order. -/
theorem orderForAll_le_iff_lt (h0 : 0 ≤ n) (hn : n ≤ maxOrder) :
    orderForAll vs ≤ n ↔ ∀ v ∈ vs, v < n := by
  rw [orderForAll_le_iff]
  simp only [orderFor_le_iff hn, h0, true_and]

/-- **The numbers are below the order that they need**, if there is such an order. -/
theorem lt_orderForAll (h : orderForAll vs ≤ maxOrder) (hv : v ∈ vs) : v < orderForAll vs :=
  (orderForAll_le_iff_lt (orderForAll_nonneg vs) h).mp (le_refl _) v hv

theorem lt_inferOrder {es : List Edge} {e : Edge} (h : inferOrder es ≤ maxOrder) (he : e ∈ es) :
    e.source < inferOrder es ∧ e.target < inferOrder es := by
  rw [inferOrder_eq] at h ⊢
  exact ⟨lt_orderForAll h (mem_ends.mpr ⟨e, he, Or.inl rfl⟩),
    lt_orderForAll h (mem_ends.mpr ⟨e, he, Or.inr rfl⟩)⟩

/-- **No order suffices** if some number is no vertex of the largest graph there is. -/
theorem maxOrder_lt_orderForAll : maxOrder < orderForAll vs ↔ ∃ v ∈ vs, maxOrder ≤ v := by
  rw [← not_le, orderForAll_le_iff_lt (Int.natCast_nonneg _) (le_refl _)]
  simp

theorem orderForAll_le_of_subset (h : vs ⊆ ws) : orderForAll vs ≤ orderForAll ws :=
  orderForAll_le_iff.mpr ⟨orderForAll_nonneg ws, fun v hv =>
    (orderForAll_le_iff.mp (le_refl _)).2 v (h hv)⟩

/-- **The order in which the numbers are told does not matter.** -/
theorem orderForAll_eq_of_perm (h : vs.Perm ws) : orderForAll vs = orderForAll ws :=
  le_antisymm (orderForAll_le_of_subset h.subset) (orderForAll_le_of_subset h.symm.subset)

/-! ## On machine words -/

namespace Word

/-- What a number asks for, as a machine computes it: on signed words of 64 bits, with a sum
that wraps around. -/
def orderFor (v : Int64) : Int64 :=
  if Int64.ofNat maxOrder ≤ v then Int64.ofNat maxOrder + 1 else v + 1

/-- The largest demand, as a machine computes it. -/
def orderForAll (vs : List Int64) : Int64 := vs.foldl (fun n v => max n (orderFor v)) 0

theorem toInt_ofNat_maxOrder : (Int64.ofNat maxOrder).toInt = maxOrder :=
  Int64.toInt_ofNat_of_lt (by decide)

/-- A sum that fits into a word is the sum. -/
theorem toInt_add_one {v : Int64} (h : v.toInt + 1 < 2 ^ 63) : (v + 1).toInt = v.toInt + 1 := by
  have hlow := v.le_toInt
  rw [Int64.toInt_add, Int64.toInt_one]
  exact Int.bmod_eq_of_le (by omega) (by omega)

theorem toInt_max (v w : Int64) : (max v w).toInt = max v.toInt w.toInt := by
  show (if v ≤ w then w else v).toInt = _
  simp only [max_def, Int64.le_iff_toInt_le]
  split <;> rfl

/-- **No sum wraps around**: what a number asks for fits into a word. -/
theorem toInt_orderFor (v : Int64) : (orderFor v).toInt = TopologicalOrder.orderFor v.toInt := by
  have hmax : (maxOrder : Int) + 1 < 2 ^ 63 := by decide
  unfold orderFor TopologicalOrder.orderFor
  simp only [Int64.le_iff_toInt_le, toInt_ofNat_maxOrder]
  split
  · rw [toInt_add_one (by rwa [toInt_ofNat_maxOrder]), toInt_ofNat_maxOrder]
  · exact toInt_add_one (by omega)

/-- **A machine computes the largest demand.** -/
theorem toInt_orderForAll (vs : List Int64) :
    (orderForAll vs).toInt = TopologicalOrder.orderForAll (vs.map Int64.toInt) := by
  -- every running maximum is the same, from whatever number it starts
  have hrun : ∀ n : Int64, (vs.foldl (fun n v => max n (orderFor v)) n).toInt =
      vs.foldl (fun n v => max n (TopologicalOrder.orderFor v.toInt)) n.toInt := by
    induction vs with
    | nil => exact fun n => rfl
    | cons v vs ih =>
      intro n
      rw [List.foldl_cons, List.foldl_cons, ih, toInt_max, toInt_orderFor]
  unfold orderForAll TopologicalOrder.orderForAll
  rw [List.foldl_map]
  exact hrun 0

/-- **A machine computes the order `n` from the numbers `vs`** if they are words, and no sum
that it takes on the way wraps around. -/
def ComputesOrder (vs : List Int) (n : Int) : Prop :=
  ∀ ws : List Int64, ws.map Int64.toInt = vs →
    (∀ w ∈ ws, (orderFor w).toInt = TopologicalOrder.orderFor w.toInt) ∧ (orderForAll ws).toInt = n

theorem computesOrder_orderForAll (vs : List Int) :
    ComputesOrder vs (TopologicalOrder.orderForAll vs) := by
  rintro ws rfl
  exact ⟨fun w _ => toInt_orderFor w, toInt_orderForAll ws⟩

end Word

end TopologicalOrder
