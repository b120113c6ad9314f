import Mathlib
import TopologicalOrder.Proofs.Rankings
import TopologicalOrder.Proofs.Refusals
import TopologicalOrder.Random.Source

/-!
# Random acyclic graphs

A random graph is made in two steps: its vertices are ranked, and for each pair of ranks a
trial decides whether there is an edge up the ranking. The trials are made one after the
other and each leaves the generator in another state, but what they decide can be listed
beforehand (`Graph.outcomes`), for the trials do not look at the graph. So the graph is the
one to which the pairs are added that the outcomes keep (`Graph.addForward_eq`).

Nothing is asked of the outcomes. The pairs of a ranking are all different and none of them
is a loop, so whichever of them are kept are accepted (`Graph.exists_adds_keptOf`), and the
graph leads up the ranking. If all are kept, as with probability one, the ranking is its only
topological order.
-/

namespace TopologicalOrder

/-! ## Comparing floats -/

namespace Number

open Float.Model

/-- Nothing is below what is no number. -/
theorem not_lt_of_isNaN (x : Float) {p : Float} (h : p.isNaN = true) : ¬ x < p := by
  have hp : p.toModel.unpack = .notANumber := UnpackedFloat.isNaN_iff.mp h
  show ¬ decide (x.toModel < p.toModel) = true
  rw [decide_eq_true_iff]
  show ¬ (x.toModel.unpack.compare p.toModel.unpack == some Ordering.lt) = true
  rw [hp]
  cases x.toModel.unpack <;> simp [UnpackedFloat.compare]

theorem beq_eq_false_of_isNaN {p : Float} (h : p.isNaN = true) (x : Float) : (p == x) = false := by
  have hp : p.toModel.unpack = .notANumber := UnpackedFloat.isNaN_iff.mp h
  show (p.toModel.unpack.compare x.toModel.unpack == some Ordering.eq) = false
  rw [hp]
  rfl

/-- **Two numbers are equal or one is below the other**, infinities and zeros included. -/
theorem compare_trichotomy {x y : UnpackedFloat} (hx : x ≠ .notANumber) (hy : y ≠ .notANumber) :
    x.compare y = some .lt ∨ x.compare y = some .eq ∨ y.compare x = some .lt := by
  cases x with
  | notANumber => exact absurd rfl hx
  | infinity s =>
    cases s <;> cases y with
    | notANumber => exact absurd rfl hy
    | infinity t => cases t <;> decide
    | zero t => simp [UnpackedFloat.compare]
    | finite t m e hm => simp [UnpackedFloat.compare]
  | zero s =>
    cases y with
    | notANumber => exact absurd rfl hy
    | infinity t => cases t <;> simp [UnpackedFloat.compare]
    | zero t => simp [UnpackedFloat.compare]
    | finite t m e hm => cases t <;> simp [UnpackedFloat.compare]
  | finite s l d hl =>
    cases s <;> cases y with
    | notANumber => exact absurd rfl hy
    | infinity t => cases t <;> simp [UnpackedFloat.compare]
    | zero t => simp [UnpackedFloat.compare]
    | finite t m e hm =>
      -- of one sign, the exponents are compared before the mantissas
      cases t <;> simp [UnpackedFloat.compare, Ordering.then_eq_lt, Ordering.then_eq_gt,
        compare_lt_iff_lt, compare_gt_iff_gt]
      omega

theorem lt_or_beq_or_gt {x y : Float} (hx : x.isNaN = false) (hy : y.isNaN = false) :
    x < y ∨ (x == y) = true ∨ y < x := by
  have hnumber : ∀ z : Float, z.isNaN = false → z.toModel.unpack ≠ .notANumber := fun z hz hnan =>
    Bool.false_ne_true (hz.symm.trans (UnpackedFloat.isNaN_iff.mpr hnan))
  have hlt : ∀ z w : Float, z.toModel.unpack.compare w.toModel.unpack = some .lt → z < w :=
    fun z w h => decide_eq_true (beq_iff_eq.mpr h)
  have hbeq : x.toModel.unpack.compare y.toModel.unpack = some .eq → (x == y) = true :=
    fun h => show (_ == some Ordering.eq) = true from beq_iff_eq.mpr h
  rcases compare_trichotomy (hnumber x hx) (hnumber y hy) with h | h | h
  · exact Or.inl (hlt x y h)
  · exact Or.inr (Or.inl (hbeq h))
  · exact Or.inr (Or.inr (hlt y x h))

end Number

/-! ## What is kept -/

section Kept

variable {α β : Type} {l : List α} {bs : List Bool}

/-- **What is kept of a list**, given an outcome for each of its elements. -/
def keptOf (l : List α) (bs : List Bool) : List α := ((l.zip bs).filter Prod.snd).map Prod.fst

theorem keptOf_cons (a : α) (l : List α) (b : Bool) (bs : List Bool) :
    keptOf (a :: l) (b :: bs) = if b then a :: keptOf l bs else keptOf l bs := by
  cases b <;> simp [keptOf]

theorem keptOf_append {l' : List α} {bs' : List Bool} (h : l.length = bs.length) :
    keptOf (l ++ l') (bs ++ bs') = keptOf l bs ++ keptOf l' bs' := by
  simp [keptOf, List.zip_append h]

theorem keptOf_map (f : α → β) (l : List α) (bs : List Bool) :
    keptOf (l.map f) bs = (keptOf l bs).map f := by
  simp [keptOf, List.zip_map_left, List.filter_map, Function.comp_def]

theorem length_keptOf (h : l.length = bs.length) : (keptOf l bs).length = bs.count true := by
  have hsnd : (l.zip bs).map Prod.snd = bs := List.map_snd_zip h.ge
  conv_rhs => rw [← hsnd, List.count, List.countP_map]
  rw [keptOf, List.length_map, ← List.countP_eq_length_filter]
  congr 1
  funext q
  simp

theorem keptOf_sublist (l : List α) (bs : List Bool) : (keptOf l bs).Sublist l := by
  induction l generalizing bs with
  | nil => exact List.Sublist.refl []
  | cons a l ih =>
    cases bs with
    | nil => exact List.nil_sublist _
    | cons b bs =>
      rw [keptOf_cons]
      split
      · exact (ih bs).cons_cons a
      · exact (ih bs).cons a

theorem keptOf_replicate (l : List α) : keptOf l (List.replicate l.length true) = l := by
  induction l with
  | nil => rfl
  | cons a l ih => rw [List.length_cons, List.replicate_succ, keptOf_cons, ih, if_pos rfl]

end Kept

namespace Graph

variable {γ : Type} {gen : Option (Random.Generator γ)} {p : Float} {g g₀ r : Graph} {u v : Int}

/-! ## Trials and their outcomes -/

/-- **A probability and a generator to draw a random graph with.** -/
structure Drawable (p : Float) (gen : Option (Random.Generator γ)) : Prop where
  /-- The probability does not lie outside zero to one. -/
  within : ¬ (p < 0 ∨ 1 < p)
  /-- One strictly between needs a generator. -/
  certain : gen = none → ¬ (0 < p ∧ p < 1)
  /-- What is no number needs one too. -/
  number : gen = none → p.isNaN = false

/-- **Without a generator there are two probabilities.** -/
theorem Drawable.eq_zero_or_one (h : Drawable p gen) (hnone : gen = none) :
    (p == 0) = true ∨ (p == 1) = true := by
  have hnumber := h.number hnone
  rcases Number.lt_or_beq_or_gt hnumber (y := 0) (by decide) with hlt | hzero | hgt
  · exact absurd (Or.inl hlt) h.within
  · exact Or.inl hzero
  · rcases Number.lt_or_beq_or_gt hnumber (y := 1) (by decide) with hlt | hone | hgt'
    · exact absurd ⟨hgt, hlt⟩ (h.certain hnone)
    · exact Or.inr hone
    · exact absurd (Or.inr hgt') h.within

/-- Probability one needs no generator. -/
theorem drawable_one (gen : Option (Random.Generator γ)) : Drawable 1 gen where
  within := by decide
  certain _ := by decide
  number _ := by decide

/-- With a generator, only the range is checked. -/
theorem drawable_some (gen : Random.Generator γ) (h : ¬ (p < 0 ∨ 1 < p)) :
    Drawable p (some gen) where
  within := h
  certain hnone := absurd hnone (Option.some_ne_none gen)
  number hnone := absurd hnone (Option.some_ne_none gen)

/-- With another probability than zero and one, a trial is a draw. -/
theorem trial_some (gen : Random.Generator γ) (hzero : (p == 0) = false) (hone : (p == 1) = false)
    (s : γ) : trial (some gen) p s = (some (decide ((gen.unit s).1 < p)), (gen.unit s).2) := by
  unfold trial
  rw [hzero, hone, if_neg Bool.false_ne_true, if_neg Bool.false_ne_true]

/-- **Past the checks, every trial is decided.** -/
theorem Drawable.exists_trial (h : Drawable p gen) (s : γ) :
    ∃ b s', trial gen p s = (some b, s') := by
  by_cases hzero : (p == 0) = true
  · exact ⟨false, s, if_pos hzero⟩
  · by_cases hone : (p == 1) = true
    · refine ⟨true, s, ?_⟩
      unfold trial
      rw [if_neg hzero, if_pos hone]
    · cases gen with
      | none => exact absurd (h.eq_zero_or_one rfl) (not_or.mpr ⟨hzero, hone⟩)
      | some gen =>
        exact ⟨_, _, trial_some gen (Bool.eq_false_of_not_eq_true hzero)
          (Bool.eq_false_of_not_eq_true hone) s⟩

/-- **The outcomes of the next `k` trials**, as far as they are decided, with the state that the
generator is left in. -/
def outcomes (gen : Option (Random.Generator γ)) (p : Float) : Nat → γ → List Bool × γ
  | 0, s => ([], s)
  | k + 1, s =>
    let rest := outcomes gen p k (trial gen p s).2
    ((trial gen p s).1.toList ++ rest.1, rest.2)

theorem outcomes_succ {b : Bool} {s s' : γ} (h : trial gen p s = (some b, s')) (k : Nat) :
    outcomes gen p (k + 1) s = (b :: (outcomes gen p k s').1, (outcomes gen p k s').2) := by
  rw [outcomes, h]
  rfl

theorem length_outcomes (h : Drawable p gen) (k : Nat) (s : γ) :
    (outcomes gen p k s).1.length = k := by
  induction k generalizing s with
  | zero => rfl
  | succ k ih =>
    obtain ⟨b, s', ht⟩ := h.exists_trial s
    rw [outcomes_succ ht]
    exact congrArg Nat.succ (ih s')

/-- Trials that are made in two rounds. -/
theorem outcomes_add (gen : Option (Random.Generator γ)) (p : Float) (k m : Nat) (s : γ) :
    outcomes gen p (k + m) s =
      let first := outcomes gen p k s
      let second := outcomes gen p m first.2
      (first.1 ++ second.1, second.2) := by
  induction k generalizing s with
  | zero => rw [Nat.zero_add]; rfl
  | succ k ih => simp only [Nat.add_right_comm k 1 m, outcomes, ih, List.append_assoc]

theorem outcomes_eq_replicate {b : Bool} (h : ∀ s : γ, (trial gen p s).1 = some b) (k : Nat)
    (s : γ) : (outcomes gen p k s).1 = List.replicate k b := by
  induction k generalizing s with
  | zero => rfl
  | succ k ih =>
    show (trial gen p s).1.toList ++ (outcomes gen p k _).1 = _
    rw [h, ih, List.replicate_succ]
    rfl

/-- **What is no number keeps no edge**, since nothing is below it. -/
theorem Drawable.trial_of_isNaN (h : Drawable p gen) (hnan : p.isNaN = true) (s : γ) :
    (trial gen p s).1 = some false := by
  cases gen with
  | none => exact absurd ((h.number rfl).symm.trans hnan) Bool.false_ne_true
  | some gen =>
    rw [trial_some gen (Number.beq_eq_false_of_isNaN hnan 0) (Number.beq_eq_false_of_isNaN hnan 1)]
    exact congrArg some (decide_eq_false (Number.not_lt_of_isNaN _ hnan))

/-- Probability one keeps every edge. -/
theorem trial_one (gen : Option (Random.Generator γ)) (s : γ) :
    (trial gen 1 s).1 = some true := by
  have hzero : ((1 : Float) == 0) = false := by decide
  have hone : ((1 : Float) == 1) = true := by decide
  unfold trial
  rw [hzero, hone]
  rfl

/-! ## From the trials to the graph -/

/-- **The edges up a ranking**, in the order in which they are tried. -/
def upward (ranks : List Int) : List Edge := (pairs ranks).map fun q => ⟨q.1, q.2⟩

/-- **The trials of one vertex add the edges that they keep**, if these are accepted. -/
theorem addTrials_eq (hgen : Drawable p gen) {vs : List Int} {s : γ}
    (h : Adds (keptOf (vs.map (Edge.mk u)) (outcomes gen p vs.length s).1) g r) :
    addTrials gen p u vs g s = (.ok r, (outcomes gen p vs.length s).2) := by
  induction vs generalizing g s with
  | nil =>
    cases h
    rfl
  | cons v vs ih =>
    obtain ⟨kept, s', ht⟩ := hgen.exists_trial s
    rw [List.map_cons, List.length_cons, outcomes_succ ht, keptOf_cons] at h
    rw [addTrials, List.length_cons, outcomes_succ ht, ht]
    cases kept with
    | false => exact ih h
    | true =>
      cases h with
      | cons ha hrest =>
        dsimp only
        rw [ha]
        exact ih hrest

/-- **The trials of all pairs of ranks add the edges that they keep**, if these are accepted. -/
theorem addForward_eq (hgen : Drawable p gen) {ranks : List Int} {s : γ}
    (h : Adds (keptOf (upward ranks) (outcomes gen p (upward ranks).length s).1) g r) :
    addForward gen p ranks g s = (.ok r, (outcomes gen p (upward ranks).length s).2) := by
  induction ranks generalizing g s with
  | nil =>
    cases h
    rfl
  | cons u vs ih =>
    have hupward : upward (u :: vs) = vs.map (Edge.mk u) ++ upward vs := by
      unfold upward
      rw [pairs, List.map_append, List.map_map]
      rfl
    rw [hupward, List.length_append, List.length_map, outcomes_add,
      keptOf_append (by rw [List.length_map, length_outcomes hgen])] at h
    obtain ⟨q, hq, hr⟩ := adds_append.mp h
    rw [addForward, addTrials_eq hgen hq, hupward, List.length_append, List.length_map,
      outcomes_add]
    exact ih hr

/-! ## Edges up a ranking -/

theorem mem_upward {ranks : List Int} {e : Edge} :
    e ∈ upward ranks ↔ [e.source, e.target].Sublist ranks := by
  rw [← mem_pairs]
  unfold upward
  constructor
  · intro h
    obtain ⟨q, hq, rfl⟩ := List.mem_map.mp h
    exact hq
  · intro h
    exact List.mem_map_of_mem h

/-- **The edges up a ranking are a list that a graph may have**: the ranks are all different. -/
theorem simpleEdges_upward {n : Nat} {ranks : List Int} (h : ranks.Perm (vertices n)) :
    SimpleEdges n false (upward ranks) := by
  have hnodup : ranks.Nodup := h.nodup_iff.mpr (nodup_vertices n)
  have hmem : ∀ w ∈ ranks, IsVertex n w := fun w hw => mem_vertices.mp (h.mem_iff.mp hw)
  refine ⟨fun e he => ?_, ?_, fun _ e he heq => ?_⟩
  · have hends := (mem_upward.mp he).subset
    exact ⟨hmem _ (hends List.mem_cons_self),
      hmem _ (hends (List.mem_cons_of_mem _ List.mem_cons_self))⟩
  · exact (nodup_pairs hnodup).map fun q r hqr => Prod.ext (Edge.mk.inj hqr).1 (Edge.mk.inj hqr).2
  · have hsub := mem_upward.mp he
    rw [heq] at hsub
    exact List.nodup_iff_sublist.mp hnodup _ hsub

/-- **There are as many edges up a ranking as pairs of ranks.** -/
theorem length_upward {n : Nat} {ranks : List Int} (h : ranks.Perm (vertices n)) :
    (upward ranks).length = (pairs (List.range n)).length := by
  rw [upward, List.length_map, length_pairs, length_pairs, h.length_eq, length_vertices,
    List.length_range]

/-- **The kept edges by their ranks**: the trials of a ranking are those of the numbers below its
length. -/
theorem keptOf_upward {n : Nat} {ranks : List Int} (h : ranks.length = n) (bs : List Bool) :
    keptOf (upward ranks) bs =
      (keptOf (pairs (List.range n)) bs).map fun q => ⟨ranks.getD q.1 0, ranks.getD q.2 0⟩ := by
  have hranks : ranks = (List.range n).map fun i => ranks.getD i 0 := by
    refine List.ext_getElem (by rw [List.length_map, List.length_range, h]) fun i hi _ => ?_
    rw [List.getElem_map, List.getElem_range, List.getD_eq_getElem ranks 0 hi]
  have hpairs : pairs ranks =
      (pairs (List.range n)).map (Prod.map (ranks.getD · 0) (ranks.getD · 0)) := by
    conv_lhs => rw [hranks, pairs_map]
  rw [upward, hpairs, List.map_map, keptOf_map]
  rfl

section Kept

variable {n : Nat} {ranks : List Int} {bs : List Bool}

/-- **Whichever edges up a ranking are kept, they are accepted.** -/
theorem exists_adds_keptOf (hstart : ofOrder n [] = .ok g₀) (hperm : ranks.Perm (vertices n))
    (bs : List Bool) : ∃ g, Adds (keptOf (upward ranks) bs) g₀ g := by
  obtain ⟨horder, hlooped⟩ := order_of_ofOrder hstart
  obtain ⟨hadmissible, hnodup⟩ := simpleEdges_iff.mp (simpleEdges_upward hperm)
  have hsub := keptOf_sublist (upward ranks) bs
  refine (wellFormed_of_ofOrder hstart).exists_adds (fun e he => ⟨?_, ?_⟩) (hsub.nodup hnodup)
  · rw [horder, hlooped]
    exact hadmissible e (hsub.subset he)
  · rw [successors_of_ofOrder hstart]
    exact List.not_mem_nil

theorem order_of_adds {es : List Edge} (hstart : ofOrder n [] = .ok g₀) (hadds : Adds es g₀ g) :
    g.order = n := hadds.order_eq.1.trans (order_of_ofOrder hstart).1

theorem mem_successors_of_adds {es : List Edge} (hstart : ofOrder n [] = .ok g₀)
    (hadds : Adds es g₀ g) : v ∈ g.successors u ↔ ⟨u, v⟩ ∈ es := by
  rw [successors_of_adds hstart hadds, mem_targets]

section Added

variable (hstart : ofOrder n [] = .ok g₀) (hperm : ranks.Perm (vertices n))
  (hadds : Adds (keptOf (upward ranks) bs) g₀ g)
include hstart hperm hadds

/-- **The graph of the kept edges leads up the ranking.** -/
theorem leadsUp_of_adds : g.LeadsUp ranks where
  wellFormed := hadds.wellFormed (wellFormed_of_ofOrder hstart)
  perm := order_of_adds hstart hadds ▸ hperm
  up _ _ hv :=
    mem_upward.mp ((keptOf_sublist _ bs).subset ((mem_successors_of_adds hstart hadds).mp hv))

/-- **There is an edge where a trial was kept.** -/
theorem mem_successors_iff_kept :
    v ∈ g.successors u ↔ ∃ i j, i < j ∧ (i, j) ∈ keptOf (pairs (List.range n)) bs ∧
      ranks[i]? = some u ∧ ranks[j]? = some v := by
  have hlength : ranks.length = n := hperm.length_eq.trans (length_vertices n)
  have hget : ∀ i < n, ∀ w, ranks.getD i 0 = w ↔ ranks[i]? = some w := by
    intro i hi w
    rw [← hlength] at hi
    rw [List.getD_eq_getElem ranks 0 hi, List.getElem?_eq_getElem hi, Option.some_inj]
  -- a trial is that of two numbers below `n`, the smaller first
  have hbelow : ∀ i j, (i, j) ∈ keptOf (pairs (List.range n)) bs → i < j ∧ j < n := by
    intro i j hkept
    have hsub := mem_pairs.mp ((keptOf_sublist _ bs).subset hkept)
    exact ⟨List.pairwise_iff_forall_sublist.mp List.pairwise_lt_range hsub,
      List.mem_range.mp (hsub.subset (List.mem_cons_of_mem i List.mem_cons_self))⟩
  rw [mem_successors_of_adds hstart hadds, keptOf_upward hlength, List.mem_map]
  constructor
  · rintro ⟨⟨i, j⟩, hkept, heq⟩
    obtain ⟨hij, hj⟩ := hbelow i j hkept
    obtain ⟨hu, hv⟩ := Edge.mk.inj heq
    exact ⟨i, j, hij, hkept, (hget i (hij.trans hj) u).mp hu, (hget j hj v).mp hv⟩
  · rintro ⟨i, j, hij, hkept, hu, hv⟩
    have hj := (hbelow i j hkept).2
    exact ⟨(i, j), hkept,
      congrArg₂ Edge.mk ((hget i (hij.trans hj) u).mpr hu) ((hget j hj v).mpr hv)⟩

/-- **The successors of a vertex stand in the order of their ranks.** -/
theorem successors_sublist_ranks (u : Int) : (g.successors u).Sublist ranks := by
  have hnodup : ranks.Nodup := hperm.nodup_iff.mpr (nodup_vertices n)
  have hpairs : ((upward ranks).filter fun e => e.source = u).map Edge.target =
      ((pairs ranks).filter fun q => q.1 = u).map Prod.snd := by
    rw [upward, List.filter_map, List.map_map]
    rfl
  rw [successors_of_adds hstart hadds]
  calc
    List.Sublist _ (((upward ranks).filter fun e => e.source = u).map Edge.target) :=
      ((keptOf_sublist _ bs).filter _).map _
    List.Sublist _ ranks := by
      rw [hpairs]
      exact sublist_of_filter_pairs hnodup u

end Added

end Kept

/-! ## The result -/

theorem start_of_ofOrder {f : Family} {n : Int} {ps : List Permission} (hn : f.minOrder ≤ n)
    (h : ofOrder n ps = .ok g) : f.start n ps = .ok g := by
  unfold Family.start
  rw [if_neg hn.not_gt, h]

/-- **Past the checks, a random graph is a ranking and the trials of its pairs.** -/
theorem random_eq {n : Nat} (h : Drawable p gen) (hstart : ofOrder n [] = .ok g₀) (s : γ) :
    random n p gen s = addForward gen p (ranking gen n s).1 g₀ (ranking gen n s).2 := by
  have hn : Family.random.minOrder ≤ (n : Int) := Int.natCast_nonneg n
  have hwithin : ¬ (decide (p < 0) || decide (1 < p)) = true := by
    simpa using h.within
  have hcertain : ¬ (gen.isNone && decide (0 < p) && decide (p < 1)) = true := by
    simpa [and_assoc] using h.certain
  unfold random
  rw [if_neg hn.not_gt, if_neg hwithin, if_neg hcertain, start_of_ofOrder hn hstart,
    Int.toNat_natCast]

/-- **Past the checks, a random graph is made**: no edge is refused. -/
theorem exists_random {n : Nat} (hn : n ≤ maxOrder) (h : Drawable p gen) (s : γ) :
    let trials := outcomes gen p (pairs (List.range n)).length (ranking gen n s).2
    ∃ g₀ g, ofOrder n [] = .ok g₀ ∧
      Adds (keptOf (upward (ranking gen n s).1) trials.1) g₀ g ∧
      random n p gen s = (.ok g, trials.2) := by
  intro trials
  have hlength := length_upward (perm_ranking gen n s)
  obtain ⟨g₀, hstart⟩ : ∃ g₀, ofOrder n [] = .ok g₀ :=
    ⟨_, ofOrder_eq_ok.mpr ⟨⟨Int.natCast_nonneg n, Int.ofNat_le.mpr hn⟩, rfl⟩⟩
  obtain ⟨g, hadds⟩ := exists_adds_keptOf hstart (perm_ranking gen n s) trials.1
  refine ⟨g₀, g, hstart, hadds, ?_⟩
  rw [random_eq h hstart, addForward_eq h (by rw [hlength]; exact hadds), hlength]

variable {σ : Type}

/-- **A random graph has the pairs of ranks whose trials are kept, and no other edges.** For
every admitted number of vertices, every probability and every generator that pass the checks,
the vertices are ranked, each of them once and in ascending order if there is no generator, and
one trial is made for each pair of ranks. None is kept of what is no number. Then a graph is made
from one without edges, and no edge is refused on the way: there is an edge from the vertex of
rank `i` to that of rank `j` just if `i` is below `j` and the trial of the two is kept. The
successors of each vertex stand in the order of the ranking, and the edges are as many as the
trials that are kept. The graph has no cycle, the ranking is a topological order, and a sort that
looks for cycles succeeds. -/
theorem random_keeps_forward_pairs {n : Nat} (hn : n ≤ maxOrder) (h : Drawable p gen) (s : γ) :
    let ranks := (ranking gen n s).1
    let trials := outcomes gen p (pairs (List.range n)).length (ranking gen n s).2
    (ranks.Perm (vertices n) ∧ (gen = none → ranks = vertices n)) ∧
      ((gen = none → (p == 0) = true ∨ (p == 1) = true) ∧
        trials.1.length = n * (n - 1) / 2 ∧ (p.isNaN = true → ∀ b ∈ trials.1, b = false)) ∧
      ∃ g₀ g, ofOrder n [] = .ok g₀ ∧ Adds (keptOf (upward ranks) trials.1) g₀ g ∧
        random n p gen s = (.ok g, trials.2) ∧ g.order = n ∧
        (∀ u v, v ∈ g.successors u ↔
          ∃ i j, i < j ∧ (i, j) ∈ keptOf (pairs (List.range n)) trials.1 ∧
            ranks[i]? = some u ∧ ranks[j]? = some v) ∧
        (∀ u, (g.successors u).Sublist ranks) ∧ g.edgeCount = trials.1.count true ∧
        g.successors.Acyclic n ∧ verify (some g.successors) n ranks.toArray = .ok () ∧
        ∀ (st : Strategy) (c : σ), ∃ order, (topologicalSort (some g.successors) n
          { strategy := st, detectCycles := true } c).1 = .ok order := by
  intro ranks trials
  have hperm : ranks.Perm (vertices n) := perm_ranking gen n s
  refine ⟨⟨hperm, fun hnone => by subst hnone; rfl⟩,
    ⟨h.eq_zero_or_one, ?_, fun hnan b hb => ?_⟩, ?_⟩
  · rw [length_outcomes h, length_pairs, List.length_range]
  · rw [show trials.1 = _ from outcomes_eq_replicate (h.trial_of_isNaN hnan) _ _] at hb
    exact List.eq_of_mem_replicate hb
  · obtain ⟨g₀, g, hstart, hadds, hrandom⟩ := exists_random hn h s
    have hup := leadsUp_of_adds hstart hperm hadds
    have hcount : g.edgeCount = trials.1.count true := by
      rw [edgeCount_of_adds hstart hadds, length_keptOf]
      rw [length_outcomes h, length_upward hperm]
    obtain rfl := order_of_adds hstart hadds
    exact ⟨g₀, g, hstart, hadds, hrandom, rfl,
      fun u v => mem_successors_iff_kept hstart hperm hadds,
      successors_sublist_ranks hstart hperm hadds, hcount, hup.acyclic, hup.verify_eq_ok,
      fun st c => hup.exists_order st true c⟩

/-- Half the pairs of three ranks on the average: two of the trials are kept, and the vertices are
ranked `2`, `0`, `1`. With what is no number, and the same draws, none is kept. -/
theorem random_keeps_forward_pairs_samples :
    let gen := some Random.playback.generator
    let s : Random.Playback := { values := [0, 0, 0, 1 <<< 62, 1 <<< 61, 0] }
    (Drawable 0.5 gen ∧ (ranking gen 3 s).1 = [2, 0, 1] ∧
        ∃ g, (random 3 0.5 gen s).1 = .ok g ∧ 1 ∈ g.successors 2 ∧ 1 ∈ g.successors 0 ∧
          g.edgeCount = 2 ∧ verify (some g.successors) 3 #[2, 0, 1] = .ok ()) ∧
      Drawable (0 / 0) gen ∧ ∃ g, (random 3 (0 / 0) gen s).1 = .ok g ∧ g.edgeCount = 0 := by
  intro gen s
  have hmax : 3 ≤ maxOrder := by decide
  have hhalf : Drawable 0.5 gen := drawable_some _ (by decide +kernel)
  have hnan : Drawable (0 / 0) gen := drawable_some _ (by decide +kernel)
  have hranks : (ranking gen 3 s).1 = [2, 0, 1] := by cbv
  have hstate : (ranking gen 3 s).2 = { values := [1 <<< 62, 1 <<< 61, 0], draws := 3 } := by cbv
  have htrial : ∀ s : Random.Playback, (Random.toUnit s.draw.1 != 1) = true →
      trial gen 0.5 s = (some (decide (Random.toUnit s.draw.1 < 0.5)), s.draw.2) := fun s hs =>
    (trial_some _ (by decide +kernel) (by decide +kernel) s).trans
      (by rw [show Random.playback.generator.unit s = _ from Random.unit_of_ne_one hs]; rfl)
  have htrials : (outcomes gen 0.5 (pairs (List.range 3)).length (ranking gen 3 s).2).1 =
      [false, true, true] := by
    rw [hstate, show (pairs (List.range 3)).length = 3 from rfl,
      outcomes_succ (htrial _ (by decide +kernel)), outcomes_succ (htrial _ (by decide +kernel)),
      outcomes_succ (htrial _ (by decide +kernel))]
    decide +kernel
  refine ⟨⟨hhalf, hranks, ?_⟩, hnan, ?_⟩
  · obtain ⟨-, -, g₀, g, -, -, hrandom, -, hedges, -, hcount, -, hverify, -⟩ :=
      random_keeps_forward_pairs (σ := Unit) hmax hhalf s
    rw [htrials] at hcount hedges
    rw [hranks] at hedges hverify
    refine ⟨g, congrArg Prod.fst hrandom, ?_, ?_, hcount, hverify⟩
    · exact (hedges 2 1).mpr ⟨0, 2, by decide⟩
    · exact (hedges 0 1).mpr ⟨1, 2, by decide⟩
  · obtain ⟨-, ⟨-, -, hnone⟩, g₀, g, -, -, hrandom, -, -, -, hcount, -⟩ :=
      random_keeps_forward_pairs (σ := Unit) hmax hnan s
    refine ⟨g, congrArg Prod.fst hrandom, hcount.trans (List.count_eq_zero.mpr fun hmem => ?_)⟩
    exact Bool.false_ne_true (hnone (by decide +kernel) true hmem).symm

/-- **With probability one, the ranking is the only way to sort the graph.** For every admitted
number of vertices, with a generator or without, the graph has an edge for each pair of ranks. A
sort returns the ranking, in whichever way it keeps its path and whether it looks for cycles or
not, and no other list of vertices passes as a topological order. -/
theorem complete_sorted_by_ranking {n : Nat} (hn : n ≤ maxOrder) (gen : Option (Random.Generator γ))
    (s : γ) :
    let ranks := (ranking gen n s).1
    (ranks.Perm (vertices n) ∧ (gen = none → ranks = vertices n)) ∧
      ∃ g, (random n 1 gen s).1 = .ok g ∧ g.order = n ∧ g.edgeCount = n * (n - 1) / 2 ∧
        g.edges.length = n * (n - 1) / 2 ∧
        (∀ (st : Strategy) (detect : Bool) (c : σ), (topologicalSort (some g.successors) n
          { strategy := st, detectCycles := detect } c).1 = .ok ranks.toArray) ∧
        ∀ order, verify (some g.successors) n order = .ok () ↔ order = ranks.toArray := by
  intro ranks
  have hperm : ranks.Perm (vertices n) := perm_ranking gen n s
  refine ⟨⟨hperm, fun hnone => by subst hnone; rfl⟩, ?_⟩
  obtain ⟨g₀, g, hstart, hadds, hrandom⟩ := exists_random hn (drawable_one gen) s
  have htrials := outcomes_eq_replicate (trial_one gen)
    (pairs (List.range n)).length (ranking gen n s).2
  have hup := leadsUp_of_adds hstart hperm hadds
  -- every trial is kept, so every pair of the ranking is an edge
  rw [htrials, ← length_upward hperm, keptOf_replicate] at hadds
  have hall : ∀ u v, [u, v].Sublist ranks → v ∈ g.successors u := fun u v hsub =>
    (mem_successors_of_adds hstart hadds).mpr (mem_upward.mpr hsub)
  have hcount : g.edgeCount = n * (n - 1) / 2 := by
    rw [edgeCount_of_adds hstart hadds, length_upward hperm, length_pairs, List.length_range]
  obtain rfl := order_of_adds hstart hadds
  refine ⟨g, congrArg Prod.fst hrandom, rfl, hcount, ?_, hup.topologicalSort_eq hall,
    fun order => ?_⟩
  · rw [hup.wellFormed.length_edges, hcount]
  · constructor
    · exact hup.eq_of_verify hall
    · rintro rfl
      exact hup.verify_eq_ok

/-- The complete graphs on three vertices, ranked `2`, `0`, `1` by draws of zero, and in ascending
order without draws. -/
theorem complete_sorted_by_ranking_samples :
    let s : Random.Playback := { values := [] }
    3 ≤ maxOrder ∧
      (∃ g, (random 3 1 (some Random.playback.generator) s).1 = .ok g ∧ g.edgeCount = 3 ∧
        (topologicalSort (some g.successors) 3 { strategy := .recursive } ()).1 = .ok #[2, 0, 1] ∧
        verify (some g.successors) 3 #[0, 1, 2] ≠ .ok ()) ∧
      ∃ g, (random 3 1 none s).1 = .ok g ∧ g.edgeCount = 3 ∧
        (topologicalSort (some g.successors) 3 { strategy := .stack, detectCycles := true } ()).1 =
          .ok #[0, 1, 2] := by
  intro s
  have hmax : 3 ≤ maxOrder := by decide
  have hranks : (ranking (some Random.playback.generator) 3 s).1 = [2, 0, 1] := by cbv
  refine ⟨hmax, ?_, ?_⟩
  · obtain ⟨-, g, hrandom, -, hcount, -, hsort, hverify⟩ :=
      complete_sorted_by_ranking (σ := Unit) hmax (some Random.playback.generator) s
    rw [hranks] at hsort hverify
    refine ⟨g, hrandom, hcount, hsort .recursive false (), fun hok => ?_⟩
    exact absurd ((hverify #[0, 1, 2]).mp hok) (by decide)
  · obtain ⟨-, g, hrandom, -, hcount, -, hsort, -⟩ :=
      complete_sorted_by_ranking (σ := Unit) hmax none s
    exact ⟨g, hrandom, hcount, hsort .stack true ()⟩

end Graph

end TopologicalOrder
