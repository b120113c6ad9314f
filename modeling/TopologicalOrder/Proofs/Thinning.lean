import Mathlib
import TopologicalOrder.Proofs.History
import TopologicalOrder.Proofs.Observation
import TopologicalOrder.Proofs.Visits

/-!
# Successors that make no difference

A successor list may name a vertex more than once, and a graph that nobody has validated
often does. When an exploration comes to such a name again, the vertex has been dealt with:
it was passed by the first time, and then it is passed by again, or it was visited, and
then it is black. In both cases nothing happens. A vertex that lists itself is gray while
its list is explored, so unless the search looks for cycles that entry is passed by even
the first time.

`Thinned` describes the lists that come of leaving out such entries. It does not say that
all of them are left out, so one statement covers removing the repetitions of a list,
removing loops as well, and removing nothing. Exploring the thinned list is exploring the
list (`Search.explore_thinned`): the two are in the same state whenever an entry of both is
at hand, and an entry of one alone is passed by. Hence no client can tell the graphs apart
(`repetitions_immaterial`).
-/

namespace TopologicalOrder

variable {σ : Type}

/-! ## Thinned lists -/

/-- **The second list is the first without some entries that are named before**, where
`seen` counts as named before the list begins. -/
inductive Thinned : List Int → List Int → List Int → Prop
  /-- Nothing is left out of nothing. -/
  | nil (seen : List Int) : Thinned seen [] []
  /-- An entry that both lists have is named from now on. -/
  | keep {seen us ws : List Int} {u : Int} (h : Thinned (u :: seen) us ws) :
      Thinned seen (u :: us) (u :: ws)
  /-- An entry that is named before is left out. -/
  | drop {seen us ws : List Int} {u : Int} (hu : u ∈ seen) (h : Thinned seen us ws) :
      Thinned seen (u :: us) ws

/-- Leaving out all repetitions, and everything that is named before the list begins. -/
theorem thinned_filter_eraseDups (seen us : List Int) :
    Thinned seen us ((us.filter fun u => u ∉ seen).eraseDups) := by
  induction us generalizing seen with
  | nil => exact .nil seen
  | cons u us ih =>
    by_cases hu : u ∈ seen
    · rw [List.filter_cons_of_neg (by simpa using hu)]
      exact .drop hu (ih seen)
    · rw [List.filter_cons_of_pos (by simpa using hu), List.eraseDups_cons, List.filter_filter]
      refine .keep ?_
      -- what is left out of the rest is what is named with `u` included
      have hrest : (us.filter fun w => (!w == u) && decide (w ∉ seen)) =
          us.filter fun w => w ∉ u :: seen :=
        List.filter_congr fun w _ => by simp [List.mem_cons, not_or, Bool.beq_eq_decide_eq]
      rw [hrest]
      exact ih (u :: seen)

theorem filter_eraseDups (p : Int → Bool) (us : List Int) :
    us.eraseDups.filter p = (us.filter p).eraseDups := by
  induction us using List.reverseRecOn with
  | nil => rfl
  | append_singleton us u ih =>
    rw [eraseDups_concat, List.filter_append]
    cases hp : p u with
    | false =>
      rw [List.filter_cons_of_neg (by simpa using hp), List.filter_nil, List.append_nil, ← ih]
      split
      · rfl
      · rw [List.filter_append, List.filter_cons_of_neg (by simpa using hp), List.filter_nil,
          List.append_nil]
    | true =>
      rw [List.filter_cons_of_pos hp, List.filter_nil, eraseDups_concat, ← ih]
      have hmem : u ∈ us.eraseDups.filter p ↔ u ∈ us.eraseDups := by simp [hp]
      by_cases hu : u ∈ us.eraseDups
      · rw [if_pos hu, if_pos (hmem.mpr hu)]
      · rw [if_neg hu, if_neg (hmem.not.mpr hu), List.filter_append, List.filter_cons_of_pos hp,
          List.filter_nil]

/-! ## Graphs without repetitions and loops -/

namespace Successors

/-- The graph in which each successor is listed where it is first named, and only there. -/
def dedup (g : Successors) : Successors := fun v => (g v).eraseDups

/-- The graph in which no vertex lists itself. -/
def loopless (g : Successors) : Successors := fun v => (g v).filter fun u => u ≠ v

theorem thinned_dedup (g : Successors) (v : Int) : Thinned [] (g v) (g.dedup v) := by
  have h := thinned_filter_eraseDups [] (g v)
  rw [List.filter_eq_self.mpr (by simp)] at h
  exact h

theorem thinned_loopless_dedup (g : Successors) (v : Int) :
    Thinned [v] (g v) (g.dedup.loopless v) := by
  have h := thinned_filter_eraseDups [v] (g v)
  rw [← filter_eraseDups] at h
  simpa [loopless, dedup] using h

end Successors

/-! ## Exploring a thinned list -/

theorem Thinned.mono {seen seen' us ws : List Int} (h : Thinned seen us ws)
    (hseen : seen ⊆ seen') : Thinned seen' us ws := by
  induction h generalizing seen' with
  | nil => exact .nil seen'
  | keep _ ih => exact .keep (ih (List.cons_subset_cons _ hseen))
  | drop hu _ ih => exact .drop (hseen hu) (ih hseen)

/-- What need not be examined when `v` is explored: `v` itself, unless cycles are looked
for. -/
def Options.idle (o : Options σ) (v : Int) : List Int := if o.detectCycles then [] else [v]

namespace Search

variable {g g' : Successors} {o : Options σ} {s r : Search σ} {v : Int}
  {seen us ws : List Int}

/-- The graph has a say in a discovery only in the list that is fetched. -/
theorem discover_successors (g g' : Successors) (o : Options σ) (v : Int) (s : Search σ) :
    discover ⟨g', o⟩ v s = (discover ⟨g, o⟩ v s).map (Except.map fun _ => g' v) id := by
  unfold discover
  dsimp only
  cases o.watch s.client with
  | some cause => rfl
  | none =>
    dsimp only
    cases announce o.onVisit v (s.paint v .gray) with
    | mk reply r => cases reply <;> rfl

/-- A vertex that has just been discovered passes itself by, unless cycles are looked for. -/
theorem examine_idle (hv : IsVertex s.order v) (hd : discover ⟨g, o⟩ v s = (.ok us, r)) :
    ∀ u ∈ o.idle v, examine ⟨g, o⟩ v u r = .ok false := by
  intro u hu
  unfold Options.idle at hu
  split at hu
  · cases hu
  · rename_i hoff
    obtain rfl := List.mem_singleton.mp hu
    refine examine_eq_pass.mpr ⟨order_of_discover hd ▸ hv, Or.inr ⟨?_, by simpa using hoff⟩⟩
    rw [color_of_discover rfl hv hd hv, if_pos rfl]

/-- A discovery fetches the thinned list from the thinned graph. -/
theorem discover_thinned (hg : ∀ v, Thinned (o.idle v) (g v) (g' v))
    (hd : discover ⟨g, o⟩ v s = (.ok us, r)) :
    discover ⟨g', o⟩ v s = (.ok (g' v), r) ∧ Thinned (o.idle v) us (g' v) := by
  obtain ⟨-, -, rfl⟩ := discover_eq_ok.mp hd
  refine ⟨?_, hg v⟩
  rw [discover_successors g g', hd]
  rfl

/-- **Exploring a thinned list is exploring the list**, if what is named before is passed
by. -/
theorem explore_thinned (hg : ∀ v, Thinned (o.idle v) (g v) (g' v)) (h : Thinned seen us ws)
    (hseen : ∀ u ∈ seen, examine ⟨g, o⟩ v u s = .ok false) :
    (explore ⟨g', o⟩ v ws s).val = (explore ⟨g, o⟩ v us s).val := by
  induction v, us, s using explore.induct ⟨g, o⟩ generalizing seen ws with
  | case1 v s =>
    cases h
    rw [explore_nil, explore_nil]
    rfl
  | case2 v s u us e hexamine =>
    cases h with
    | drop hu _ => cases hexamine.symm.trans (hseen u hu)
    | keep h =>
      rw [explore_refuse hexamine]
      exact explore_refuse (t := ⟨g', o⟩) hexamine
  | case3 v s u us hexamine ih =>
    rw [explore_pass hexamine]
    cases h with
    | drop hu h => exact ih h hseen
    | keep h =>
      rw [explore_pass (t := ⟨g', o⟩) hexamine]
      exact ih h (List.forall_mem_cons.mpr ⟨hexamine, hseen⟩)
  | case4 v s u us hexamine e p hdiscover =>
    cases h with
    | drop hu _ => cases hexamine.symm.trans (hseen u hu)
    | keep h =>
      have hdiscover' := discover_successors g g' o u s
      rw [hdiscover] at hdiscover'
      rw [explore_undiscovered hexamine hdiscover]
      exact explore_undiscovered (t := ⟨g', o⟩) hexamine hdiscover'
  | case5 v s u us hexamine fetched p hdiscover _ e q _ hvisit ih =>
    cases h with
    | drop hu _ => cases hexamine.symm.trans (hseen u hu)
    | keep h =>
      obtain ⟨hdiscover', hfetched⟩ := discover_thinned hg hdiscover
      have hu := (examine_eq_descend.mp hexamine).1
      rw [explore_descend hexamine hdiscover,
        explore_descend (t := ⟨g', o⟩) hexamine hdiscover',
        ih hfetched (examine_idle hu hdiscover), hvisit]
  | case6 v s u us hexamine fetched p hdiscover _ q _ hvisit _ out _ _ ih₁ ih₂ =>
    cases h with
    | drop hu _ => cases hexamine.symm.trans (hseen u hu)
    | keep h =>
      obtain ⟨hdiscover', hfetched⟩ := discover_thinned hg hdiscover
      obtain ⟨hu, hwhite⟩ := examine_eq_descend.mp hexamine
      rw [explore_descend hexamine hdiscover,
        explore_descend (t := ⟨g', o⟩) hexamine hdiscover',
        ih₁ hfetched (examine_idle hu hdiscover), hvisit]
      -- the visit of `u` has left `u` black and what was passed by as it was
      obtain ⟨hprogress, hblack⟩ :=
        (explore_eq_ok.mp (congrArg Subtype.val hvisit)).progress_of_discover hu hwhite hdiscover
      refine ih₂ h (List.forall_mem_cons.mpr ⟨?_, fun w hw => ?_⟩)
      · exact examine_eq_pass.mpr ⟨hprogress.order_eq ▸ hu, Or.inl hblack⟩
      · exact hprogress.examine_eq_pass (hseen w hw)

/-- **Going over the roots of a thinned graph is going over those of the graph.** -/
theorem sweep_thinned (hg : ∀ v, Thinned (o.idle v) (g v) (g' v)) {vs : List Int}
    (hvs : ∀ v ∈ vs, IsVertex s.order v) : sweep ⟨g', o⟩ vs s = sweep ⟨g, o⟩ vs s := by
  induction vs generalizing s with
  | nil => rfl
  | cons v vs ih =>
    obtain ⟨hv, hvs⟩ := List.forall_mem_cons.mp hvs
    by_cases hwhite : s.color v = .white
    · rw [sweep, sweep, hwhite, enter_eq_visit, enter_eq_visit, visit, visit]
      cases hdiscover : discover ⟨g, o⟩ v s with
      | mk found p =>
        cases found with
        | error e =>
          rw [discover_successors g g', hdiscover]
          rfl
        | ok us =>
          obtain ⟨hdiscover', hfetched⟩ := discover_thinned hg hdiscover
          rw [hdiscover']
          dsimp only
          rw [explore_thinned hg hfetched (examine_idle hv hdiscover)]
          cases hvisit : (explore ⟨g, o⟩ v us p).val with
          | mk out q =>
            cases out with
            | error e => rfl
            | ok =>
              have hprogress :=
                ((explore_eq_ok.mp hvisit).progress_of_discover hv hwhite hdiscover).1
              exact ih fun w hw => hprogress.order_eq ▸ hvs w hw
    · rw [sweep_of_ne_white hwhite, sweep_of_ne_white hwhite]
      exact ih hvs

end Search

/-! ## The whole search -/

section

variable {o : Options σ} {g g' : Successors}

theorem finishOrder_thinned (hg : ∀ v, Thinned (o.idle v) (g v) (g' v)) (n : Int) (c : σ) :
    finishOrder (some g') n o c = finishOrder (some g) n o c := by
  unfold finishOrder
  dsimp only
  rw [Search.sweep_thinned hg (Search.isVertex_start n.toNat c)]

theorem topologicalSort_thinned (hg : ∀ v, Thinned (o.idle v) (g v) (g' v)) (n : Int) (c : σ) :
    topologicalSort (some g') n o c = topologicalSort (some g) n o c := by
  rw [topologicalSort, topologicalSort, finishOrder_thinned hg]

end

/-- **A client cannot tell the graphs `g` and `g'` apart**: the answers are the same, the
order or the failure with all it names, the client ends in the same state, and its hooks
are called alike. -/
structure Indistinguishable (n : Int) (o : Options σ) (c : σ) (g g' : Option Successors) :
    Prop where
  /-- The finish orders are the same. -/
  finishOrder_eq : finishOrder g' n o c = finishOrder g n o c
  /-- The sorts are the same. -/
  topologicalSort_eq : topologicalSort g' n o c = topologicalSort g n o c
  /-- The calls on the way to the finish orders are the same. -/
  finishOrder_calls :
    finishOrder g' n o.recorded (c, []) = finishOrder g n o.recorded (c, [])
  /-- The calls on the way to the sorts are the same. -/
  topologicalSort_calls :
    topologicalSort g' n o.recorded (c, []) = topologicalSort g n o.recorded (c, [])

theorem indistinguishable_of_thinned {o : Options σ} {thin : Successors → Successors}
    (hthin : ∀ (g : Successors) (v : Int), Thinned (o.idle v) (g v) (thin g v))
    (g : Option Successors) (n : Int) (c : σ) : Indistinguishable n o c g (g.map thin) := by
  cases g with
  | none => exact ⟨rfl, rfl, rfl, rfl⟩
  | some g =>
    -- the client that writes its calls down looks for cycles as the other one does
    have hrecorded : ∀ v, Thinned (o.recorded.idle v) (g v) (thin g v) := hthin g
    exact ⟨finishOrder_thinned (hthin g) n c, topologicalSort_thinned (hthin g) n c,
      finishOrder_thinned hrecorded n (c, []), topologicalSort_thinned hrecorded n (c, [])⟩

/-- **Repeated successors make no difference, and neither do loops unless cycles are looked
for.** Whatever the graph, the number of vertices, the options and the client, leaving each
successor where it is first named and removing its repetitions changes nothing that the
client could see. If the search does not look for cycles, every vertex may be removed from
its own list as well. -/
theorem repetitions_immaterial (g : Option Successors) (n : Int) (o : Options σ) (c : σ) :
    Indistinguishable n o c g (g.map Successors.dedup) ∧
      (o.detectCycles = false →
        Indistinguishable n o c g (g.map fun h => h.dedup.loopless)) := by
  refine ⟨?_, fun hoff => ?_⟩
  · exact indistinguishable_of_thinned
      (fun g v => (g.thinned_dedup v).mono (List.nil_subset _)) g n c
  · refine indistinguishable_of_thinned (fun g v => ?_) g n c
    rw [Options.idle, hoff]
    exact g.thinned_loopless_dedup v

/-- Without its repetitions and loops, `0` has two successors of five, and a client that counts
its visits is called as before. -/
theorem repetitions_immaterial_sample :
    let g := (Adjacency.ofList [(0, [1, 0, 1, 2, 0]), (1, [2, 2]), (2, [2, 0, 1])]).successors
    let h := g.dedup.loopless
    let o : Options Nat :=
      { strategy := .recursive, onVisit := some (fun _ k => (none, k + 1)) }
    let calls : List (Phase × Int) := [(.visit, 0), (.visit, 1), (.visit, 2)]
    h 0 = [1, 2] ∧ finishOrder (some g) 3 o.recorded (0, []) = (.ok #[2, 1, 0], (3, calls)) ∧
      finishOrder (some h) 3 o.recorded (0, []) = (.ok #[2, 1, 0], (3, calls)) := by
  intro g h o calls
  have hrun : finishOrder (some g) 3 o.recorded (0, []) = (.ok #[2, 1, 0], (3, calls)) := by cbv
  have hsame := ((repetitions_immaterial (some g) 3 o 0).2 rfl).finishOrder_calls
  exact ⟨by decide, hrun, hsame.trans hrun⟩

end TopologicalOrder
