import Mathlib.Data.List.Chain
import Mathlib.Data.List.Nodup
import TopologicalOrder.Proofs.Reachability

/-!
# The calls of a depth-first search

A client sees a search as the sequence of calls that visit a vertex and exit it
again. `DepthFirst` says which sequences a depth-first search can leave, by the
four things that can happen next: nothing has happened yet, a new root is
visited, a successor of the last open vertex is visited, or the last open vertex
is exited. The rules say nothing of colours, stacks or strategies, and they leave
open in which order the successors are taken.

They are enough for the laws of a depth-first search (`Calls.Lawful`). The time
between the visit of a vertex and its exit is its *interval*. The open intervals
are closed in the reverse order of their opening, so two intervals are disjoint
or one lies in the other. Whatever is visited inside the interval of `v` stands,
at that moment, on the path from `v` to the last open vertex; and a vertex is
exited only when its successors have all been visited, so that an interval cannot
end before everything is visited to which a path of unvisited vertices led when
it began (`DepthFirst.lawful`).

Sequences are compared by moments: the moment of a call is the number of calls
before it.
-/

namespace TopologicalOrder

/-- The calls that a client has seen, the earliest one first. -/
abbrev Calls : Type := List (Phase × Int)

/-! ## Moments -/

namespace Calls

variable {calls : Calls} {e d : Phase × Int} {path : List Int} {u v : Int}

/-- The moment at which `v` is visited. -/
def visitAt (calls : Calls) (v : Int) : Nat := calls.idxOf (.visit, v)

/-- The moment at which `v` is exited. -/
def exitAt (calls : Calls) (v : Int) : Nat := calls.idxOf (.exit, v)

/-- The calls before the call `e`. -/
def before (calls : Calls) (e : Phase × Int) : Calls := calls.take (calls.idxOf e)

/-- The exited vertices, in order. -/
def exits (calls : Calls) : List Int := (calls.filter fun e => e.1 = .exit).map Prod.snd

@[simp] theorem exits_concat_visit (calls : Calls) (v : Int) :
    exits (calls ++ [(.visit, v)]) = exits calls := by
  simp [exits]

@[simp] theorem exits_concat_exit (calls : Calls) (v : Int) :
    exits (calls ++ [(.exit, v)]) = exits calls ++ [v] := by
  simp [exits]

/-- **To come before a call is to have the smaller moment.** A call that is never
made has the last moment of all. -/
theorem mem_before : d ∈ calls.before e ↔ calls.idxOf d < calls.idxOf e := by
  unfold before
  by_cases hd : d ∈ calls
  · exact List.mem_take_iff_idxOf_lt hd
  · refine iff_of_false (fun h => hd (List.mem_of_mem_take h)) ?_
    rw [List.idxOf_of_notMem hd]
    exact Nat.not_lt.mpr List.idxOf_le_length

theorem idxOf_before (hd : d ∈ calls.before e) : (calls.before e).idxOf d = calls.idxOf d :=
  (List.take_prefix _ _).idxOf_eq_of_mem hd

/-- Later calls do not change what came before a call. -/
theorem before_append (l : Calls) (he : e ∈ calls) : before (calls ++ l) e = calls.before e := by
  unfold before
  rw [List.idxOf_append_of_mem he, List.take_append_of_le_length List.idxOf_le_length]

/-- All calls so far come before a new one. -/
theorem before_concat (he : e ∉ calls) : before (calls ++ [e]) e = calls := by
  unfold before
  rw [List.idxOf_append_of_notMem he, List.idxOf_cons_self]
  exact List.take_left

/-! ## Open intervals -/

/-- **The open intervals are those of `path`**, the one opened last first. -/
structure Tracks (path : List Int) (calls : Calls) : Prop where
  /-- No call is made twice. -/
  nodup : calls.Nodup
  /-- An interval is open if it has begun and not ended. -/
  mem_path : ∀ v, v ∈ path ↔ (.visit, v) ∈ calls ∧ (.exit, v) ∉ calls
  /-- An interval that has ended had begun. -/
  visit_of_exit : ∀ v, (.exit, v) ∈ calls → (.visit, v) ∈ calls
  /-- The intervals of the path were opened from its end to its head. -/
  lifo : path.Pairwise fun v u => calls.visitAt u < calls.visitAt v

/-- No interval is on the path twice. -/
theorem Tracks.not_mem_tail (h : Tracks (v :: path) calls) : v ∉ path :=
  fun hv => Nat.lt_irrefl _ ((List.pairwise_cons.mp h.lifo).1 v hv)

/-- The order of the path is not affected by later calls. -/
theorem Tracks.lifo_append (l : Calls) (h : Tracks path calls) :
    path.Pairwise fun v u => visitAt (calls ++ l) u < visitAt (calls ++ l) v := by
  refine h.lifo.imp_of_mem (fun {v u} hv hu hlt => ?_)
  unfold visitAt
  rw [List.idxOf_append_of_mem ((h.mem_path u).mp hu).1,
    List.idxOf_append_of_mem ((h.mem_path v).mp hv).1]
  exact hlt

/-- **A visit opens an interval.** -/
theorem Tracks.visit (h : Tracks path calls) (hnew : (.visit, v) ∉ calls) :
    Tracks (v :: path) (calls ++ [(.visit, v)]) where
  nodup := by
    rw [← List.concat_eq_append]
    exact h.nodup.concat hnew
  mem_path u := by
    have hexit : (.exit, v) ∉ calls := fun he => hnew (h.visit_of_exit v he)
    rw [List.mem_cons, h.mem_path]
    by_cases huv : u = v
    · subst huv
      simp [hexit]
    · simp [huv]
  visit_of_exit u hu := by
    have hold : (.exit, u) ∈ calls := by simpa using hu
    exact List.mem_append_left _ (h.visit_of_exit u hold)
  lifo := by
    refine List.pairwise_cons.mpr ⟨fun u hu => ?_, h.lifo_append _⟩
    have hvisit : (.visit, u) ∈ calls := ((h.mem_path u).mp hu).1
    unfold visitAt
    rw [List.idxOf_append_of_mem hvisit, List.idxOf_append_of_notMem hnew]
    exact Nat.lt_add_right _ (List.idxOf_lt_length_of_mem hvisit)

/-- **An exit closes the interval opened last.** -/
theorem Tracks.exit (h : Tracks (v :: path) calls) : Tracks path (calls ++ [(.exit, v)]) where
  nodup := by
    rw [← List.concat_eq_append]
    exact h.nodup.concat ((h.mem_path v).mp List.mem_cons_self).2
  mem_path u := by
    have hu := h.mem_path u
    rw [List.mem_cons] at hu
    by_cases huv : u = v
    · subst huv
      simp [h.not_mem_tail]
    · simpa [huv] using hu
  visit_of_exit u hu := by
    refine List.mem_append_left _ ?_
    by_cases huv : u = v
    · subst huv
      exact ((h.mem_path u).mp List.mem_cons_self).1
    · refine h.visit_of_exit u ?_
      simpa [huv] using hu
  lifo := (List.pairwise_cons.mp (h.lifo_append _)).2

end Calls

/-! ## Paths -/

namespace Successors

variable {g : Successors} {P : Int → Prop} {path : List Int} {v w : Int}

/-- `w` can be reached from `v` by a path whose vertices, the first one apart, all
satisfy `P`. -/
def ReachesThrough (g : Successors) (P : Int → Prop) : Int → Int → Prop :=
  Relation.ReflTransGen fun a b => b ∈ g a ∧ P b

/-- A path that is kept as a list, its last vertex first. What stands above a
vertex of the list is what the path meets after it. -/
theorem reachesThrough_of_isChain {R : Int → Int → Prop}
    (hchain : (w :: path).IsChain fun a b => a ∈ g b) (hpair : (w :: path).Pairwise R)
    (hP : ∀ u, R u v → P u) (hv : v ∈ w :: path) : g.ReachesThrough P v w := by
  induction path generalizing w with
  | nil =>
    obtain rfl : v = w := List.mem_singleton.mp hv
    exact Relation.ReflTransGen.refl
  | cons x path ih =>
    obtain ⟨hedge, hrest⟩ := List.isChain_cons_cons.mp hchain
    obtain ⟨habove, hbelow⟩ := List.pairwise_cons.mp hpair
    by_cases hvw : v = w
    · subst hvw
      exact Relation.ReflTransGen.refl
    · have hmem : v ∈ x :: path := (List.mem_cons.mp hv).resolve_left hvw
      exact (ih hrest hbelow hmem).tail ⟨hedge, hP w (habove v hmem)⟩

end Successors

/-! ## The rules -/

/-- **The calls that a depth-first search of `g` over `0 … n - 1` can leave**, when
the open intervals are those of `path`, the last one first. -/
inductive DepthFirst (g : Successors) (n : Nat) : List Int → Calls → Prop
  /-- Nothing has been called. -/
  | start : DepthFirst g n [] []
  /-- Nothing is open, and the least unvisited vertex is visited. -/
  | root {calls : Calls} {v : Int} (h : DepthFirst g n [] calls) (hv : IsVertex n v)
      (hnew : (.visit, v) ∉ calls)
      (hleast : ∀ u, IsVertex n u → u < v → (.visit, u) ∈ calls) :
      DepthFirst g n [v] (calls ++ [(.visit, v)])
  /-- An unvisited successor of the last open vertex is visited. -/
  | descend {calls : Calls} {path : List Int} {u v : Int} (h : DepthFirst g n (v :: path) calls)
      (hedge : u ∈ g v) (hu : IsVertex n u) (hnew : (.visit, u) ∉ calls) :
      DepthFirst g n (u :: v :: path) (calls ++ [(.visit, u)])
  /-- The successors of the last open vertex have all been visited, and it is exited. -/
  | leave {calls : Calls} {path : List Int} {v : Int} (h : DepthFirst g n (v :: path) calls)
      (hall : ∀ u ∈ g v, (.visit, u) ∈ calls) : DepthFirst g n path (calls ++ [(.exit, v)])

namespace DepthFirst

variable {g : Successors} {n : Nat} {calls : Calls} {path : List Int} {u v w : Int}

theorem tracks (h : DepthFirst g n path calls) : calls.Tracks path := by
  induction h with
  | start => exact ⟨List.nodup_nil, by simp, by simp, List.Pairwise.nil⟩
  | root _ _ hnew _ ih => exact ih.visit hnew
  | descend _ _ _ hnew ih => exact ih.visit hnew
  | leave _ _ ih => exact ih.exit

/-- Only vertices are visited. -/
theorem isVertex_of_visit (h : DepthFirst g n path calls) (hv : (.visit, v) ∈ calls) :
    IsVertex n v := by
  induction h with
  | start => exact absurd hv List.not_mem_nil
  | root _ hroot _ _ ih =>
    simp only [List.mem_append, List.mem_singleton, Prod.mk.injEq, true_and] at hv
    exact hv.elim ih fun heq => heq ▸ hroot
  | descend _ _ hu _ ih =>
    simp only [List.mem_append, List.mem_singleton, Prod.mk.injEq, true_and] at hv
    exact hv.elim ih fun heq => heq ▸ hu
  | leave _ _ ih => exact ih (by simpa using hv)

/-- Each open vertex is a successor of the one below it. -/
theorem isChain (h : DepthFirst g n path calls) : path.IsChain fun a b => a ∈ g b := by
  induction h with
  | start => exact List.isChain_nil
  | root => exact List.isChain_singleton _
  | descend _ hedge _ _ ih => exact List.isChain_cons_cons.mpr ⟨hedge, ih⟩
  | leave _ _ ih => exact ih.tail

/-- **The moment of a visit**: what was open then, and that a vertex which is visited
while nothing is open is the least unvisited one. -/
theorem at_visit (h : DepthFirst g n path calls) (hv : (.visit, v) ∈ calls) :
    ∃ p, DepthFirst g n p (calls.before (.visit, v)) ∧
      (v :: p).IsChain (fun a b => a ∈ g b) ∧
      (p = [] → ∀ u, IsVertex n u → u < v → (.visit, u) ∈ calls.before (.visit, v)) := by
  -- the call is the last one, or it was made before and nothing has changed for it
  induction h with
  | start => exact absurd hv List.not_mem_nil
  | @root calls w h _ hnew hleast ih =>
    by_cases hold : (.visit, v) ∈ calls
    · rw [Calls.before_append _ hold]
      exact ih hold
    · obtain rfl : v = w := by simpa [hold] using hv
      rw [Calls.before_concat hnew]
      exact ⟨[], h, List.isChain_singleton _, fun _ => hleast⟩
  | @descend calls p w x h hedge _ hnew ih =>
    by_cases hold : (.visit, v) ∈ calls
    · rw [Calls.before_append _ hold]
      exact ih hold
    · obtain rfl : v = w := by simpa [hold] using hv
      rw [Calls.before_concat hnew]
      exact ⟨x :: p, h, List.isChain_cons_cons.mpr ⟨hedge, h.isChain⟩, fun hnil => nomatch hnil⟩
  | leave _ _ ih =>
    have hold := (List.mem_append.mp hv).resolve_right (by simp)
    rw [Calls.before_append _ hold]
    exact ih hold

/-- **The moment of an exit**: the vertex was the last open one, and its successors
had all been visited. -/
theorem at_exit (h : DepthFirst g n path calls) (hv : (.exit, v) ∈ calls) :
    ∃ p, DepthFirst g n (v :: p) (calls.before (.exit, v)) ∧
      ∀ u ∈ g v, (.visit, u) ∈ calls.before (.exit, v) := by
  induction h with
  | start => exact absurd hv List.not_mem_nil
  | root _ _ _ _ ih =>
    have hold := (List.mem_append.mp hv).resolve_right (by simp)
    rw [Calls.before_append _ hold]
    exact ih hold
  | descend _ _ _ _ ih =>
    have hold := (List.mem_append.mp hv).resolve_right (by simp)
    rw [Calls.before_append _ hold]
    exact ih hold
  | @leave calls p w h hall ih =>
    by_cases hold : (.exit, v) ∈ calls
    · rw [Calls.before_append _ hold]
      exact ih hold
    · obtain rfl : v = w := by simpa [hold] using hv
      rw [Calls.before_concat hold]
      exact ⟨p, h, hall⟩

/-! ## The laws -/

theorem visitAt_lt_exitAt (h : DepthFirst g n path calls) (hv : (.exit, v) ∈ calls) :
    calls.visitAt v < calls.exitAt v := by
  obtain ⟨p, hp, -⟩ := h.at_exit hv
  exact Calls.mem_before.mp ((hp.tracks.mem_path v).mp List.mem_cons_self).1

/-- **An interval that begins inside another one ends inside it.** -/
theorem exitAt_lt_exitAt (h : DepthFirst g n path calls) (hv : (.exit, v) ∈ calls)
    (hbegin : calls.visitAt v < calls.visitAt w) (hinside : calls.visitAt w < calls.exitAt v) :
    calls.exitAt w < calls.exitAt v := by
  obtain ⟨p, hp, -⟩ := h.at_exit hv
  have ht := hp.tracks
  have hvvisit : (.visit, v) ∈ calls.before (.exit, v) :=
    ((ht.mem_path v).mp List.mem_cons_self).1
  have hwvisit : (.visit, w) ∈ calls.before (.exit, v) := Calls.mem_before.mpr hinside
  refine Calls.mem_before.mp (Classical.byContradiction fun hopen => ?_)
  -- otherwise `w` is still open below `v`, and so was visited first
  have hne : w ≠ v := fun heq => Nat.lt_irrefl _ (heq ▸ hbegin)
  have hmem : w ∈ p :=
    (List.mem_cons.mp ((ht.mem_path w).mpr ⟨hwvisit, hopen⟩)).resolve_left hne
  have hlifo := (List.pairwise_cons.mp ht.lifo).1 w hmem
  unfold Calls.visitAt at hlifo
  rw [Calls.idxOf_before hwvisit, Calls.idxOf_before hvvisit] at hlifo
  exact Nat.lt_asymm hbegin hlifo

/-- An interval that begins after another one begins after its end or lies in it. -/
theorem disjoint_or_inside (h : DepthFirst g n path calls) (hv : (.exit, v) ∈ calls)
    (hbegin : calls.visitAt v < calls.visitAt w) :
    calls.exitAt v < calls.visitAt w ∨ calls.exitAt w < calls.exitAt v := by
  have hne : calls.exitAt v ≠ calls.visitAt w := fun heq =>
    nomatch congrArg Prod.fst ((List.idxOf_inj hv).mp heq)
  exact (Nat.lt_or_gt_of_ne hne).imp_right (h.exitAt_lt_exitAt hv hbegin)

/-- **What is visited while no interval is open is the least unvisited vertex.** -/
theorem visitAt_lt_of_root (h : DepthFirst g n path calls) (hv : (.visit, v) ∈ calls)
    (hclosed : ∀ u, IsVertex n u → calls.visitAt u < calls.visitAt v →
      calls.exitAt u < calls.visitAt v)
    (hu : IsVertex n u) (hlt : u < v) : calls.visitAt u < calls.visitAt v := by
  obtain ⟨p, hp, -, hleast⟩ := h.at_visit hv
  have hnil : p = [] := List.eq_nil_iff_forall_not_mem.mpr fun x hx => by
    obtain ⟨hvisit, hopen⟩ := (hp.tracks.mem_path x).mp hx
    exact hopen (Calls.mem_before.mpr
      (hclosed x (hp.isVertex_of_visit hvisit) (Calls.mem_before.mp hvisit)))
  exact Calls.mem_before.mp (hleast hnil u hu hlt)

/-- Nothing is exited before its successors are visited. -/
theorem visitAt_lt_exitAt_of_mem (h : DepthFirst g n path calls) (hv : (.exit, v) ∈ calls)
    (hu : u ∈ g v) : calls.visitAt u < calls.exitAt v := by
  obtain ⟨p, -, hall⟩ := h.at_exit hv
  exact Calls.mem_before.mp (hall u hu)

/-- **What is visited in an interval is reached by a path of vertices that were
unvisited when it began.** -/
theorem reachesThrough_of_inside (h : DepthFirst g n path calls) (hw : (.visit, w) ∈ calls)
    (hbegin : calls.visitAt v ≤ calls.visitAt w) (hinside : calls.visitAt w < calls.exitAt v) :
    g.ReachesThrough (fun u => u ≠ v → (.visit, u) ∉ calls.before (.visit, v)) v w := by
  obtain ⟨p, hp, hchain, -⟩ := h.at_visit hw
  have ht := hp.tracks
  -- the intervals open at the visit of `w`, its own included, in the order of their opening
  have hpair : (w :: p).Pairwise fun a b => calls.visitAt b < calls.visitAt a := by
    refine List.pairwise_cons.mpr
      ⟨fun b hb => Calls.mem_before.mp ((ht.mem_path b).mp hb).1, ?_⟩
    refine ht.lifo.imp_of_mem (fun {a b} ha hb hlt => ?_)
    unfold Calls.visitAt at hlt
    rw [Calls.idxOf_before ((ht.mem_path a).mp ha).1,
      Calls.idxOf_before ((ht.mem_path b).mp hb).1] at hlt
    exact hlt
  have hopen : v ∈ w :: p := by
    by_cases hvw : v = w
    · exact hvw ▸ List.mem_cons_self
    · refine List.mem_cons_of_mem w ((ht.mem_path v).mpr ⟨?_, fun hexit => ?_⟩)
      · refine Calls.mem_before.mpr (Nat.lt_of_le_of_ne hbegin (fun heq => hvw ?_))
        exact (congrArg Prod.snd ((List.idxOf_inj hw).mp heq.symm)).symm
      · exact Nat.lt_asymm hinside (Calls.mem_before.mp hexit)
  refine Successors.reachesThrough_of_isChain hchain hpair (fun u hlater _ hearly => ?_) hopen
  exact Nat.lt_asymm hlater (Calls.mem_before.mp hearly)

/-- **What such a path leads to is visited in the interval.** -/
theorem inside_of_reachesThrough (h : DepthFirst g n path calls) (hv : (.exit, v) ∈ calls)
    (hpath : g.ReachesThrough (fun u => u ≠ v → (.visit, u) ∉ calls.before (.visit, v)) v w) :
    calls.visitAt v ≤ calls.visitAt w ∧ calls.visitAt w < calls.exitAt v := by
  induction hpath with
  | refl => exact ⟨Nat.le_refl _, h.visitAt_lt_exitAt hv⟩
  | @tail b c _ hstep ih =>
    obtain ⟨hbegin, hinside⟩ := ih
    obtain ⟨hedge, hwhite⟩ := hstep
    -- `b` is exited no later than `v`, and then `c` has been visited
    have hlast : (.exit, b) ∈ calls ∧ calls.exitAt b ≤ calls.exitAt v := by
      rcases Nat.lt_or_eq_of_le hbegin with hlt | heq
      · have hexit := h.exitAt_lt_exitAt hv hlt hinside
        exact ⟨List.mem_of_mem_take (Calls.mem_before.mpr hexit), Nat.le_of_lt hexit⟩
      · have hvisit : (.visit, v) ∈ calls := h.tracks.visit_of_exit v hv
        obtain rfl : v = b := congrArg Prod.snd ((List.idxOf_inj hvisit).mp heq)
        exact ⟨hv, Nat.le_refl _⟩
    refine ⟨?_, Nat.lt_of_lt_of_le (h.visitAt_lt_exitAt_of_mem hlast.1 hedge) hlast.2⟩
    by_cases hcv : c = v
    · exact hcv ▸ Nat.le_refl _
    · exact Nat.not_lt.mp fun hearly => hwhite hcv (Calls.mem_before.mpr hearly)

end DepthFirst

/-- **The laws of a depth-first search** of `g` over `0 … n - 1` that calls its client
as in `calls` and finishes the vertices in the order `order`. -/
structure Calls.Lawful (g : Successors) (n : Nat) (order : List Int) (calls : Calls) : Prop where
  /-- Each vertex is visited once and exited once, and nothing else is. -/
  once : ∀ phase v, calls.count (phase, v) = if IsVertex n v then 1 else 0
  /-- A vertex is visited before it is exited. -/
  visit_lt_exit : ∀ v, IsVertex n v → calls.visitAt v < calls.exitAt v
  /-- Two intervals are disjoint, or one lies in the other. -/
  disjoint_or_nested : ∀ v w, IsVertex n v → IsVertex n w → v ≠ w →
    (calls.exitAt v < calls.visitAt w ∨ calls.exitAt w < calls.visitAt v) ∨
      (calls.visitAt v < calls.visitAt w ∧ calls.exitAt w < calls.exitAt v) ∨
      (calls.visitAt w < calls.visitAt v ∧ calls.exitAt v < calls.exitAt w)
  /-- The vertices are exited in the order in which they are listed. -/
  exits_eq : calls.exits = order
  /-- What is visited while no interval is open is the least unvisited vertex. -/
  root : ∀ v, IsVertex n v →
    (∀ u, IsVertex n u → calls.visitAt u < calls.visitAt v → calls.exitAt u < calls.visitAt v) →
      ∀ u, IsVertex n u → u < v → calls.visitAt u < calls.visitAt v
  /-- The visit of `w` lies in the interval of `v` exactly if, when `v` was visited, a
  path led from `v` to `w` whose vertices other than `v` were all unvisited. -/
  white_path : ∀ v w, IsVertex n v →
    (calls.visitAt v ≤ calls.visitAt w ∧ calls.visitAt w < calls.exitAt v ↔
      g.ReachesThrough (fun u => u ≠ v → (.visit, u) ∉ calls.take (calls.visitAt v)) v w)

/-- **A sequence that follows the rules and visits every vertex obeys the laws.** -/
theorem DepthFirst.lawful {g : Successors} {n : Nat} {calls : Calls}
    (h : DepthFirst g n [] calls) (hall : ∀ v, IsVertex n v → (.visit, v) ∈ calls) :
    calls.Lawful g n calls.exits := by
  have ht := h.tracks
  -- nothing is open at the end, so what was visited has been exited
  have hexit : ∀ v, IsVertex n v → (.exit, v) ∈ calls := fun v hv =>
    Classical.byContradiction fun hopen =>
      List.not_mem_nil ((ht.mem_path v).mpr ⟨hall v hv, hopen⟩)
  refine ⟨fun phase v => ?_, fun v hv => h.visitAt_lt_exitAt (hexit v hv),
    fun v w hv hw hne => ?_, rfl, fun v hv hclosed u hu hlt => ?_, fun v w hv => ⟨?_, ?_⟩⟩
  · rw [ht.nodup.count]
    refine if_congr ⟨fun hmem => ?_, fun hv => ?_⟩ rfl rfl
    · cases phase with
      | visit => exact h.isVertex_of_visit hmem
      | exit => exact h.isVertex_of_visit (ht.visit_of_exit v hmem)
    · cases phase with
      | visit => exact hall v hv
      | exit => exact hexit v hv
  · have hvw : calls.visitAt v ≠ calls.visitAt w := fun heq =>
      hne (congrArg Prod.snd ((List.idxOf_inj (hall v hv)).mp heq))
    rcases Nat.lt_or_gt_of_ne hvw with hlt | hlt
    · exact (h.disjoint_or_inside (hexit v hv) hlt).imp Or.inl fun hin => Or.inl ⟨hlt, hin⟩
    · exact (h.disjoint_or_inside (hexit w hw) hlt).imp Or.inr fun hin => Or.inr ⟨hlt, hin⟩
  · exact h.visitAt_lt_of_root (hall v hv) hclosed hu hlt
  · rintro ⟨hbegin, hinside⟩
    have hw : (.visit, w) ∈ calls :=
      List.mem_of_mem_take (Calls.mem_before.mpr hinside)
    exact h.reachesThrough_of_inside hw hbegin hinside
  · exact h.inside_of_reachesThrough (hexit v hv)

end TopologicalOrder
