import TopologicalOrder.Proofs.Positions
import TopologicalOrder.Proofs.Reachability
import TopologicalOrder.Search.Verify

/-!
# What a check of an order decides

A check first notes the place of every vertex. On a permutation of the vertices
it cannot fail, and the place it notes is the index (`Places.note_of_nodup`). It
then compares places edge by edge and accepts exactly when no edge is at fault
(`Places.checkSources_eq_ok`).

Together: an order that lists every vertex once is accepted exactly when every
edge leads from a vertex to a vertex that stands after it
(`verify_eq_ok_of_perm`), and otherwise an edge is named that does not
(`violated_of_verify_eq_error`).
-/

namespace TopologicalOrder

namespace Places

variable {ps : Places} {u v : Int}

@[simp] theorem place_replicate (n : Nat) (v : Int) :
    place (Array.replicate n none) v = none := by
  simp only [place, Array.getD_eq_getD_getElem?, Array.getElem?_replicate]
  split <;> rfl

/-- Noting the place of a vertex changes no other place. -/
theorem place_setIfInBounds (i : Nat) (hv : IsVertex ps.size v) (hu : IsVertex ps.size u) :
    place (ps.setIfInBounds v.toNat (some i)) u = if u = v then some i else ps.place u :=
  getD_setIfInBounds_toNat ps (some i) none hv hu

/-- **Vertices that are listed once get the places at which they stand.** -/
theorem note_of_nodup {index : Nat} {vs : List Int} (hvs : ∀ v ∈ vs, IsVertex ps.size v)
    (hnodup : vs.Nodup) (hfree : ∀ v ∈ vs, ps.place v = none) :
    ∃ qs : Places, note ps index vs = .ok qs ∧ qs.size = ps.size ∧
      ∀ v, IsVertex ps.size v →
        qs.place v = if v ∈ vs then some (index + vs.idxOf v) else ps.place v := by
  -- the tail is noted from the next index on, in places where the head is taken
  induction vs generalizing ps index with
  | nil => exact ⟨ps, rfl, rfl, fun v _ => by simp⟩
  | cons w vs ih =>
    obtain ⟨hfresh, hrest⟩ := List.nodup_cons.mp hnodup
    have hw : IsVertex ps.size w := hvs w List.mem_cons_self
    have hplace : ∀ v, IsVertex ps.size v →
        place (ps.setIfInBounds w.toNat (some index)) v =
          if v = w then some index else ps.place v :=
      fun v hv => place_setIfInBounds index hw hv
    have hsize : (ps.setIfInBounds w.toNat (some index)).size = ps.size :=
      Array.size_setIfInBounds
    obtain ⟨qs, hnote, hqs, hplaces⟩ := @ih (ps.setIfInBounds w.toNat (some index)) (index + 1)
      (fun v hv => by rw [hsize]; exact hvs v (List.mem_cons_of_mem w hv)) hrest
      (fun v hv => by
        have hvw : v ≠ w := fun heq => hfresh (heq ▸ hv)
        rw [hplace v (hvs v (List.mem_cons_of_mem w hv)), if_neg hvw]
        exact hfree v (List.mem_cons_of_mem w hv))
    refine ⟨qs, ?_, hqs.trans hsize, fun v hv => ?_⟩
    · have hbounds : 0 ≤ w ∧ w < (ps.size : Int) := hw
      rw [note, if_pos hbounds, hfree w List.mem_cons_self]
      exact hnote
    · rw [hplaces v (by rw [hsize]; exact hv), hplace v hv]
      by_cases hvw : v = w
      · subst hvw
        rw [if_neg hfresh, if_pos rfl, if_pos List.mem_cons_self, List.idxOf_cons_self]
        rfl
      · by_cases hmem : v ∈ vs
        · rw [if_pos hmem, if_pos (List.mem_cons_of_mem w hmem),
            List.idxOf_cons_ne _ (fun heq => hvw heq.symm)]
          congr 1
          omega
        · rw [if_neg hmem, if_neg hvw, if_neg]
          exact fun h => (List.mem_cons.mp h).elim hvw hmem

/-- The edges of one source pass when each leads to a vertex with a later place. -/
theorem checkSuccessors_eq_ok {vs : List Int} :
    checkSuccessors ps u vs = .ok () ↔ ∀ v ∈ vs, IsVertex ps.size v ∧ ps.before u v = true := by
  induction vs with
  | nil => simp [checkSuccessors]
  | cons v vs ih =>
    rw [List.forall_mem_cons, ← ih, checkSuccessors]
    by_cases hv : 0 ≤ v ∧ v < ps.size
    · rw [if_pos hv]
      by_cases hb : ps.before u v = true
      · rw [if_pos hb]
        exact ⟨fun h => ⟨⟨hv, hb⟩, h⟩, fun h => h.2⟩
      · rw [if_neg hb]
        exact iff_of_false (fun h => nomatch h) (fun h => hb h.1.2)
    · rw [if_neg hv]
      exact iff_of_false (fun h => nomatch h) (fun h => hv h.1.1)

/-- **All edges pass when each leads to a vertex with a later place.** -/
theorem checkSources_eq_ok {g : Successors} {us : List Int} :
    checkSources ps g us = .ok () ↔
      ∀ u ∈ us, ∀ v ∈ g u, IsVertex ps.size v ∧ ps.before u v = true := by
  induction us with
  | nil => simp [checkSources]
  | cons u us ih =>
    rw [List.forall_mem_cons, ← ih, ← checkSuccessors_eq_ok, checkSources]
    cases checkSuccessors ps u (g u) with
    | error e => exact iff_of_false (fun h => nomatch h) (fun h => nomatch h.1)
    | ok => exact ⟨fun h => ⟨rfl, h⟩, fun h => h.2⟩

/-- The check of one source fails at a successor that is no vertex or has no later
place. -/
theorem checkSuccessors_eq_error {vs : List Int} {e : VerifyError}
    (h : checkSuccessors ps u vs = .error e) :
    ∃ v ∈ vs, ¬ IsVertex ps.size v ∧ e = .outOfRange v u ps.size ∨
      IsVertex ps.size v ∧ ps.before u v = false ∧ e = .violated u v := by
  induction vs with
  | nil => exact nomatch h
  | cons v vs ih =>
    rw [checkSuccessors] at h
    split at h
    · rename_i hv
      split at h
      · obtain ⟨w, hw, hcase⟩ := ih h
        exact ⟨w, List.mem_cons_of_mem v hw, hcase⟩
      · rename_i hb
        exact ⟨v, List.mem_cons_self,
          Or.inr ⟨hv, Bool.eq_false_iff.mpr hb, (Except.error.inj h).symm⟩⟩
    · rename_i hv
      exact ⟨v, List.mem_cons_self, Or.inl ⟨hv, (Except.error.inj h).symm⟩⟩

/-- **A check that fails names an edge that is at fault.** -/
theorem checkSources_eq_error {g : Successors} {us : List Int} {e : VerifyError}
    (h : checkSources ps g us = .error e) :
    ∃ u ∈ us, ∃ v ∈ g u, ¬ IsVertex ps.size v ∧ e = .outOfRange v u ps.size ∨
      IsVertex ps.size v ∧ ps.before u v = false ∧ e = .violated u v := by
  induction us with
  | nil => exact nomatch h
  | cons u us ih =>
    rw [checkSources] at h
    split at h
    · rename_i e' hu
      obtain rfl := Except.error.inj h
      exact ⟨u, List.mem_cons_self, checkSuccessors_eq_error hu⟩
    · obtain ⟨w, hw, hcase⟩ := ih h
      exact ⟨w, List.mem_cons_of_mem u hw, hcase⟩

end Places

/-- On an order that lists every vertex once, a check is the check of the edges against
the indices. -/
theorem exists_places_of_perm (g : Successors) {n : Nat} {order : Array Int}
    (hperm : order.toList.Perm (vertices n)) :
    ∃ ps : Places, ps.size = n ∧
      (∀ v, IsVertex n v → ps.place v = some (order.toList.idxOf v)) ∧
      verify (some g) n order = ps.checkSources g (vertices n) := by
  have hmem : ∀ v, v ∈ order.toList ↔ IsVertex n v := fun v => by
    rw [hperm.mem_iff, mem_vertices]
  have hsize : order.size = n := by
    rw [← Array.length_toList, hperm.length_eq, length_vertices]
  obtain ⟨ps, hnote, hps, hplaces⟩ :=
    @Places.note_of_nodup (Array.replicate n none) 0 order.toList
      (fun v hv => by rw [Array.size_replicate]; exact (hmem v).mp hv)
      (hperm.nodup_iff.mpr (nodup_vertices n)) (fun v _ => Places.place_replicate n v)
  rw [Array.size_replicate] at hps hplaces
  refine ⟨ps, hps, fun v hv => ?_, ?_⟩
  · rw [hplaces v hv, if_pos ((hmem v).mpr hv), Nat.zero_add]
  · unfold verify
    dsimp only
    rw [if_neg (Int.not_lt.mpr (Int.natCast_nonneg n)), if_neg (by rw [hsize]; simp),
      Int.toNat_natCast, hnote]

/-- **An order that lists every vertex once is accepted exactly when every edge leads
to a vertex that stands later.** -/
theorem verify_eq_ok_of_perm {g : Successors} {n : Nat} {order : Array Int}
    (hperm : order.toList.Perm (vertices n)) :
    verify (some g) n order = .ok () ↔
      ∀ u, IsVertex n u → ∀ v ∈ g u, IsVertex n v ∧ Precedes order u v := by
  have hmem : ∀ v, v ∈ order.toList ↔ IsVertex n v := fun v => by
    rw [hperm.mem_iff, mem_vertices]
  obtain ⟨ps, hps, hplace, hverify⟩ := exists_places_of_perm g hperm
  rw [hverify, Places.checkSources_eq_ok, hps]
  simp only [mem_vertices]
  refine forall₄_congr (fun u hu v _ => and_congr_right (fun hv => ?_))
  rw [precedes_iff ((hmem u).mpr hu) ((hmem v).mpr hv), Places.before, hplace u hu, hplace v hv]
  exact decide_eq_true_iff

/-- An order that lists every vertex once is refused for an edge, and if every successor
is a vertex, for one that does not lead to a vertex that stands later. -/
theorem violated_of_verify_eq_error {g : Successors} {n : Nat} {order : Array Int}
    {e : VerifyError} (hperm : order.toList.Perm (vertices n)) (hg : g.Closed n)
    (h : verify (some g) n order = .error e) : ∃ u v, e = .violated u v := by
  obtain ⟨ps, hps, -, hverify⟩ := exists_places_of_perm g hperm
  obtain ⟨u, hu, v, hv, hcase⟩ := Places.checkSources_eq_error (hverify.symm.trans h)
  rw [hps] at hcase
  rcases hcase with ⟨hout, -⟩ | ⟨-, -, he⟩
  · exact absurd (hg u (mem_vertices.mp hu) v hv) hout
  · exact ⟨u, v, he⟩

end TopologicalOrder
