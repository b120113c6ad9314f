import Mathlib
import TopologicalOrder.Graph.Basic
import TopologicalOrder.Proofs.Verification

/-!
# The verdict of a check

A check answers one of three things: that the list is a topological order, that it is
no permutation of the vertices at all, or that some edge is at fault. This module says
when it answers which (`verify_exact`).

That the list is a permutation is never compared with one. The check counts its entries
and turns down the first that is no vertex or has a place already, so a list that passes
holds as many different vertices as there are – and then it holds all of them
(`perm_vertices_of_nodup`). The graph plays no part in this.

On a permutation the check is a search for the first edge at fault, where edges are met
with their sources ascending and the targets of each in their own order
(`Places.checkSources_eq_report`).
-/

namespace TopologicalOrder

/-! ## Permutations -/

/-- The checked list is no permutation of the vertices: it has another length, an entry
that is no vertex, or a vertex twice. -/
def VerifyError.IsNotPermutation : VerifyError → Prop
  | .wrongLength _ _ | .notVertex _ _ _ | .repeated _ _ => True
  | .noGraph | .negativeCount _ | .outOfRange _ _ _ | .violated _ _ => False

namespace Places

variable {ps qs : Places} {index : Nat} {vs : List Int} {e : VerifyError}

/-- **Noting places fails only on a list that is no permutation.** -/
theorem isNotPermutation_of_note (h : note ps index vs = .error e) : e.IsNotPermutation := by
  induction vs generalizing ps index with
  | nil => cases h
  | cons v vs ih =>
    rw [note] at h
    split at h
    · split at h
      · obtain rfl := Except.error.inj h
        trivial
      · exact ih h
    · obtain rfl := Except.error.inj h
      trivial

/-- **What gets a place** is a vertex that had none, and gets it once. -/
theorem nodup_of_note (h : note ps index vs = .ok qs) :
    (∀ v ∈ vs, IsVertex ps.size v ∧ ps.place v = none) ∧ vs.Nodup := by
  induction vs generalizing ps index with
  | nil => exact ⟨List.forall_mem_nil _, List.nodup_nil⟩
  | cons v vs ih =>
    rw [note] at h
    split at h
    · rename_i hv
      cases hplace : ps.place v with
      | some i =>
        rw [hplace] at h
        cases h
      | none =>
        rw [hplace] at h
        obtain ⟨hrest, hnodup⟩ := ih h
        rw [Array.size_setIfInBounds] at hrest
        -- what is noted after `v` is free although `v` is taken, so it is not `v`
        have hother : ∀ w ∈ vs, w ≠ v ∧ ps.place w = none := by
          intro w hw
          obtain ⟨hvertex, hfree⟩ := hrest w hw
          rw [place_setIfInBounds index hv hvertex] at hfree
          split at hfree
          · cases hfree
          · rename_i hne
            exact ⟨hne, hfree⟩
        refine ⟨List.forall_mem_cons.mpr ⟨⟨hv, hplace⟩, fun w hw => ?_⟩,
          List.nodup_cons.mpr ⟨fun hmem => (hother v hmem).1 rfl, hnodup⟩⟩
        exact ⟨(hrest w hw).1, (hother w hw).2⟩
    · cases h

end Places

/-- **As many different vertices as there are make up all of them.** -/
theorem perm_vertices_of_nodup {n : Nat} {l : List Int} (hlength : l.length = n)
    (hl : ∀ v ∈ l, IsVertex n v) (hnodup : l.Nodup) : l.Perm (vertices n) := by
  have hsub : l ⊆ vertices n := fun v hv => mem_vertices.mpr (hl v hv)
  refine (List.subperm_of_subset hnodup hsub).perm_of_length_le ?_
  rw [length_vertices, hlength]

/-- **A list that is no permutation of the vertices is turned down as such**, whatever the
graph. -/
theorem verify_of_not_perm (g : Successors) {n : Nat} {order : Array Int}
    (h : ¬ order.toList.Perm (vertices n)) :
    ∃ e, verify (some g) n order = .error e ∧ e.IsNotPermutation := by
  unfold verify
  dsimp only
  rw [if_neg (Int.not_lt.mpr (Int.natCast_nonneg n))]
  by_cases hsize : (order.size : Int) = n
  · rw [if_neg (not_not_intro hsize), Int.toNat_natCast]
    cases hnote : Places.note (Array.replicate n none) 0 order.toList with
    | error e => exact ⟨e, rfl, Places.isNotPermutation_of_note hnote⟩
    | ok places =>
      obtain ⟨hplaces, hnodup⟩ := Places.nodup_of_note hnote
      rw [Array.size_replicate] at hplaces
      have hlength : order.toList.length = n := by
        rw [Array.length_toList]
        exact Int.ofNat_inj.mp hsize
      exact absurd (perm_vertices_of_nodup hlength (fun v hv => (hplaces v hv).1) hnodup) h
  · rw [if_pos hsize]
    exact ⟨_, rfl, trivial⟩

/-! ## The first edge at fault -/

/-- The edges that start at the given sources, in the order of these, and the targets of
each in their own order. -/
def edgesFrom (g : Successors) (us : List Int) : List Edge :=
  us.flatMap fun u => (g u).map (Edge.mk u)

theorem mem_edgesFrom {g : Successors} {us : List Int} {d : Edge} :
    d ∈ edgesFrom g us ↔ d.source ∈ us ∧ d.target ∈ g d.source := by
  unfold edgesFrom
  simp only [List.mem_flatMap, List.mem_map]
  constructor
  · rintro ⟨u, hu, v, hv, rfl⟩
    exact ⟨hu, hv⟩
  · rintro ⟨hu, hv⟩
    exact ⟨d.source, hu, d.target, hv, rfl⟩

/-- **An edge that an order does not bear out**: its target is no vertex, or does not stand
after its source. -/
def Edge.AtFault (n : Nat) (order : Array Int) (d : Edge) : Prop :=
  ¬ (IsVertex n d.target ∧ Precedes order d.source d.target)

/-- What is said of an edge at fault. -/
def Edge.fault (n : Nat) (d : Edge) : VerifyError :=
  if IsVertex n d.target then .violated d.source d.target
  else .outOfRange d.target d.source n

instance (order : Array Int) (u v : Int) : Decidable (Precedes order u v) :=
  match hu : indexOf? order u, hv : indexOf? order v with
  | some i, some j => decidable_of_iff (i < j) (by simp [Precedes, hu, hv])
  | none, _ => isFalse (by simp [Precedes, hu])
  | some _, none => isFalse (by simp [Precedes, hv])

instance (n : Nat) (order : Array Int) : DecidablePred (Edge.AtFault n order) :=
  fun _ => inferInstanceAs (Decidable (¬ (_ ∧ _)))

namespace Places

/-- Whether the places do not bear an edge out. -/
def refutes (ps : Places) (d : Edge) : Bool :=
  !(decide (IsVertex ps.size d.target) && ps.before d.source d.target)

/-- What a check answers, given an edge at fault if there is one. -/
def report (ps : Places) : Option Edge → Except VerifyError Unit
  | none => .ok ()
  | some d => .error (d.fault ps.size)

/-- The check of one source reports its first edge at fault. -/
theorem checkSuccessors_eq_report (ps : Places) (u : Int) (vs : List Int) :
    checkSuccessors ps u vs = ps.report ((vs.map (Edge.mk u)).find? ps.refutes) := by
  induction vs with
  | nil => rfl
  | cons v vs ih =>
    rw [checkSuccessors, List.map_cons, List.find?_cons, ih]
    by_cases hv : IsVertex ps.size v
    · have hbounds : 0 ≤ v ∧ v < (ps.size : Int) := hv
      rw [if_pos hbounds]
      cases hb : ps.before u v with
      | true => simp [refutes, hv, hb]
      | false => simp [refutes, report, Edge.fault, hv, hb]
    · have hbounds : ¬ (0 ≤ v ∧ v < (ps.size : Int)) := hv
      simp [if_neg hbounds, refutes, report, Edge.fault, hv]

/-- **The check of all sources reports the first edge at fault.** -/
theorem checkSources_eq_report (ps : Places) (g : Successors) (us : List Int) :
    checkSources ps g us = ps.report ((edgesFrom g us).find? ps.refutes) := by
  induction us with
  | nil => rfl
  | cons u us ih =>
    show _ = ps.report (((g u).map (Edge.mk u) ++ edgesFrom g us).find? ps.refutes)
    rw [checkSources, checkSuccessors_eq_report, ih, List.find?_append]
    cases ((g u).map (Edge.mk u)).find? ps.refutes with
    | none => rfl
    | some d => rfl

end Places

/-- **On a permutation a check reports the first edge at fault**, if there is one. -/
theorem verify_of_perm (g : Successors) {n : Nat} {order : Array Int}
    (hperm : order.toList.Perm (vertices n)) :
    verify (some g) n order =
      match (edgesFrom g (vertices n)).find? fun d => d.AtFault n order with
      | none => .ok ()
      | some d => .error (d.fault n) := by
  have hmem : ∀ v, v ∈ order.toList ↔ IsVertex n v := fun v => by
    rw [hperm.mem_iff, mem_vertices]
  obtain ⟨ps, hps, hplace, hverify⟩ := exists_places_of_perm g hperm
  -- the places refute an edge exactly if it is at fault, since they are the indices
  have hrefutes : ∀ d ∈ edgesFrom g (vertices n),
      ps.refutes d = decide (d.AtFault n order) := by
    intro d hd
    have hsource : IsVertex n d.source := mem_vertices.mp (mem_edgesFrom.mp hd).1
    rw [Bool.eq_iff_iff, decide_eq_true_iff]
    unfold Places.refutes Edge.AtFault
    by_cases htarget : IsVertex n d.target
    · rw [precedes_iff ((hmem _).mpr hsource) ((hmem _).mpr htarget), Places.before,
        hplace _ hsource, hplace _ htarget, hps]
      simp [htarget]
    · simp [hps, htarget]
  rw [hverify, Places.checkSources_eq_report, List.find?_congr hrefutes]
  subst hps
  rfl

/-! ## The verdict -/

/-- **A check decides what a topological order is and says what is wrong with any other
list.** Whatever the graph, the number of vertices and the list: it is accepted exactly
if it is a permutation of the vertices, every successor of a vertex is a vertex, and the
source of every edge has a smaller index than the target. It is turned down as no
permutation exactly if it is none. If it is one, the error is about the first edge, with
the sources ascending and the targets of each in their order, that is at fault: its
target is no vertex, or is one but does not stand later. -/
theorem verify_exact (g : Successors) (n : Nat) (order : Array Int) :
    (verify (some g) n order = .ok () ↔
        order.toList.Perm (vertices n) ∧ g.Closed n ∧
          ∀ u v, IsVertex n u → v ∈ g u → Precedes order u v) ∧
      ((∃ e, verify (some g) n order = .error e ∧ e.IsNotPermutation) ↔
        ¬ order.toList.Perm (vertices n)) ∧
      (order.toList.Perm (vertices n) → ∀ e, verify (some g) n order = .error e ↔
        ∃ d, (edgesFrom g (vertices n)).find? (fun d => d.AtFault n order) = some d ∧
          (¬ IsVertex n d.target ∧ e = .outOfRange d.target d.source n ∨
            IsVertex n d.target ∧ e = .violated d.source d.target)) := by
  have hfirst : order.toList.Perm (vertices n) → ∀ e, verify (some g) n order = .error e ↔
      ∃ d, (edgesFrom g (vertices n)).find? (fun d => d.AtFault n order) = some d ∧
        (¬ IsVertex n d.target ∧ e = .outOfRange d.target d.source n ∨
          IsVertex n d.target ∧ e = .violated d.source d.target) := by
    intro hperm e
    rw [verify_of_perm g hperm]
    cases (edgesFrom g (vertices n)).find? fun d => d.AtFault n order with
    | none => simp
    | some d =>
      by_cases htarget : IsVertex n d.target
      · simp [Edge.fault, htarget, eq_comm]
      · simp [Edge.fault, htarget, eq_comm]
  refine ⟨⟨fun h => ?_, fun ⟨hperm, hclosed, hforward⟩ => ?_⟩, ⟨?_, verify_of_not_perm g⟩, hfirst⟩
  · have hperm : order.toList.Perm (vertices n) := by
      by_contra hnot
      obtain ⟨e, he, -⟩ := verify_of_not_perm g hnot
      cases he.symm.trans h
    have hedges := (verify_eq_ok_of_perm hperm).mp h
    exact ⟨hperm, fun u hu v hv => (hedges u hu v hv).1,
      fun u v hu hv => (hedges u hu v hv).2⟩
  · exact (verify_eq_ok_of_perm hperm).mpr fun u hu v hv =>
      ⟨hclosed u hu v hv, hforward u v hu hv⟩
  · -- on a permutation the error is about an edge
    rintro ⟨e, he, hkind⟩ hperm
    obtain ⟨d, -, ⟨-, rfl⟩ | ⟨-, rfl⟩⟩ := (hfirst hperm e).mp he
    · exact hkind
    · exact hkind

end TopologicalOrder
