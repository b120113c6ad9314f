import Mathlib.Data.List.Perm.Basic
import TopologicalOrder.Proofs.Invariant
import TopologicalOrder.Proofs.Strategies

/-!
# What a search comes to

From one stack to the whole search: the invariant is carried from root to root,
and read off at the end, when the stack is empty and nothing is white.

A search that succeeds has listed every vertex once, and each edge of a vertex
leads to a vertex that is listed before it – or back to it along a path, if the
search does not look for cycles (`Listing`, `listing_of_finishOrder`). A search
that fails names a cause that is there: an edge that leaves the vertices, an edge
that closes a cycle, a watch that stops or a hook that fails
(`SortError.Justified`, `justified_of_finishOrder`).

Both hold whatever the strategy, the hooks and the watch are.
-/

namespace TopologicalOrder

variable {σ : Type} {t : Task σ} {n : Nat}

/-! ## Failures -/

/-- **The cause that a failed search names is there.** -/
inductive SortError.Justified (t : Task σ) (n : Nat) : SortError → Prop
  /-- A vertex lists something that is no vertex. -/
  | outOfRange {u v : Int} (hv : IsVertex n v) (hu : u ∈ t.successors v)
      (hout : ¬ IsVertex n u) : Justified t n (.outOfRange u v n)
  /-- An edge closes a cycle, and the search was to fail on it. -/
  | cycle {u v : Int} (hdetect : t.options.detectCycles = true) (hv : IsVertex n v)
      (hu : u ∈ t.successors v) (hback : t.successors.Reaches u v) :
      Justified t n (.cycle v u)
  /-- The watch stopped the search in some state of the client. -/
  | interrupted {cause : Interrupt} (c : σ) (hwatch : t.options.watch c = some cause) :
      Justified t n (.interrupted cause)
  /-- The hook failed on a discovered vertex. -/
  | visit {v : Int} {reason : String} (call : Hook σ) (c : σ) (hv : IsVertex n v)
      (hhook : t.options.onVisit = some call) (hfail : (call v c).1 = some reason) :
      Justified t n (.hookFailed .visit v reason)
  /-- The hook failed on a vertex to be finished. -/
  | exit {v : Int} {reason : String} (call : Hook σ) (c : σ) (hv : IsVertex n v)
      (hhook : t.options.onExit = some call) (hfail : (call v c).1 = some reason) :
      Justified t n (.hookFailed .exit v reason)

/-- **A client that never stops a search**: its watch never does, and its hooks never
fail. -/
structure Options.Unhindered (o : Options σ) : Prop where
  /-- The watch lets every discovery happen. -/
  watch : ∀ c, o.watch c = none
  /-- The hook accepts every visit. -/
  onVisit : ∀ call, o.onVisit = some call → ∀ v c, (call v c).1 = none
  /-- The hook accepts every exit. -/
  onExit : ∀ call, o.onExit = some call → ∀ v c, (call v c).1 = none

/-- Without hooks and with a watch that never stops, there is no client to hinder a
search. -/
theorem Options.unhindered_unattended (st : Strategy) (detect : Bool) :
    ({ strategy := st, detectCycles := detect } : Options σ).Unhindered where
  watch _ := rfl
  onVisit _ hhook := nomatch hhook
  onExit _ hhook := nomatch hhook

/-- **A search that its client does not stop fails because of its graph.** -/
theorem SortError.Justified.of_unhindered {e : SortError} (h : e.Justified t n)
    (ho : t.options.Unhindered) :
    (∃ u v, e = .outOfRange u v n ∧ IsVertex n v ∧ u ∈ t.successors v ∧ ¬ IsVertex n u) ∨
      t.options.detectCycles = true ∧
        ∃ v u, e = .cycle v u ∧ IsVertex n v ∧ u ∈ t.successors v ∧
          t.successors.Reaches u v := by
  cases h with
  | outOfRange hv hu hout => exact Or.inl ⟨_, _, rfl, hv, hu, hout⟩
  | cycle hdetect hv hu hback => exact Or.inr ⟨hdetect, _, _, rfl, hv, hu, hback⟩
  | interrupted c hwatch => exact nomatch (ho.watch c).symm.trans hwatch
  | visit call c hv hhook hfail => exact nomatch (ho.onVisit call hhook _ c).symm.trans hfail
  | exit call c hv hhook hfail => exact nomatch (ho.onExit call hhook _ c).symm.trans hfail

theorem Search.justified_of_discover {s r : Search σ} {v : Int} {e : SortError}
    (hv : IsVertex n v) (h : discover t v s = (.error e, r)) : e.Justified t n := by
  rcases discover_eq_error h with ⟨cause, hwatch, rfl⟩ | ⟨call, reason, hhook, hfail, rfl⟩
  · exact .interrupted s.client hwatch
  · exact .visit call s.client hv hhook hfail

namespace Machine

variable {m m' : Machine σ} {s r : Search σ} {u v : Int} {e : SortError}

/-- **A step fails for a cause that is there.** -/
theorem Halt.justified (hm : Halt t m e r) (h : Invariant t n m) : e.Justified t n := by
  cases hm with
  | @refuse f fs s u e hnext hexamine =>
    have hv : IsVertex n f.vertex := h.coherent.isVertex f.vertex List.mem_cons_self
    have hu : u ∈ t.successors f.vertex := by
      rw [← h.stacked.1.successors_eq]
      exact List.mem_of_getElem? (by rw [Array.getElem?_toList]; exact hnext)
    rcases Search.examine_eq_error.mp hexamine with ⟨hout, rfl⟩ | ⟨hin, hgray, hdetect, rfl⟩
    · rw [h.coherent.order_eq] at hout ⊢
      exact .outOfRange hv hu hout
    · rw [h.coherent.order_eq] at hin
      exact .cycle hdetect hv hu (h.reaches_top ((h.coherent.gray_iff u hin).mp hgray))
  | descend hnext hexamine hdiscover =>
    obtain ⟨hu, -⟩ := Search.examine_eq_descend.mp hexamine
    rw [h.coherent.order_eq] at hu
    exact Search.justified_of_discover hu hdiscover
  | @leave f fs s r e hdone hfinish =>
    obtain ⟨call, reason, hhook, hfail, rfl⟩ := Search.finish_eq_error hfinish
    exact .exit call s.client (h.coherent.isVertex f.vertex List.mem_cons_self) hhook hfail

/-! ## One root -/

/-- No move makes a vertex white. -/
theorem Move.ne_white (hm : Move t m m') (h : Invariant t n m) (hu : IsVertex n u)
    (hne : m.search.color u ≠ .white) : m'.search.color u ≠ .white := by
  have horder := h.coherent.order_eq
  cases hm with
  | pass => exact hne
  | descend hnext hexamine hdiscover =>
    have htarget := (Search.examine_eq_descend.mp hexamine).1
    rw [horder] at htarget
    exact Search.ne_white_of_discover horder htarget hdiscover hu hne
  | @leave f fs s r hdone hfinish =>
    have hv : IsVertex n f.vertex := h.coherent.isVertex f.vertex List.mem_cons_self
    exact Search.ne_white_of_finish horder hv hfinish hu hne

/-- **What a loop leaves**: the invariant, and no vertex white that was not. -/
theorem Invariant.moves (hm : Moves t m m') (h : Invariant t n m) :
    Invariant t n m' ∧
      ∀ u, IsVertex n u → m.search.color u ≠ .white → m'.search.color u ≠ .white := by
  refine hm.preserve (P := fun k => Invariant t n k ∧
    ∀ u, IsVertex n u → m.search.color u ≠ .white → k.search.color u ≠ .white) ?_
    ⟨h, fun _ _ hne => hne⟩
  rintro k k' hmove ⟨hk, hlater⟩
  exact ⟨hk.move hmove, fun u hu hne => hmove.ne_white hk hu (hlater u hu hne)⟩

/-- **Visiting a white vertex** leaves the invariant and makes the vertex black or
gray, and no other vertex white. -/
theorem Invariant.walk (h : Invariant t n ⟨[], s⟩) (hv : IsVertex n v)
    (hwhite : s.color v = .white) (hw : Search.walk t v s = (.ok (), r)) :
    Invariant t n ⟨[], r⟩ ∧ r.color v ≠ .white ∧
      ∀ u, IsVertex n u → s.color u ≠ .white → r.color u ≠ .white := by
  unfold Search.walk at hw
  split at hw
  · exact absurd (congrArg Prod.fst hw) (by simp)
  · rename_i us q hd
    obtain ⟨hr, hlater⟩ := (h.enter hv hwhite hd).moves (moves_of_run_eq_ok hw)
    have horder : s.order = n := h.coherent.order_eq
    refine ⟨hr, hlater v hv ?_, fun u hu hne => hlater u hu ?_⟩
    · show q.color v ≠ .white
      rw [Search.color_of_discover horder hv hd hv, if_pos rfl]
      exact fun hc => nomatch hc
    · exact Search.ne_white_of_discover horder hv hd hu hne

theorem Invariant.walk_error (h : Invariant t n ⟨[], s⟩) (hv : IsVertex n v)
    (hwhite : s.color v = .white) (hw : Search.walk t v s = (.error e, r)) :
    e.Justified t n := by
  unfold Search.walk at hw
  split at hw
  · rename_i e' q hd
    obtain rfl : e' = e := by simpa using congrArg Prod.fst hw
    exact Search.justified_of_discover hv hd
  · rename_i us q hd
    obtain ⟨m', hmoves, hhalt⟩ := halt_of_run_eq_error hw
    exact hhalt.justified ((h.enter hv hwhite hd).moves hmoves).1

/-! ## All roots -/

/-- **Going over a list of roots** leaves the invariant and none of them white. -/
theorem Invariant.sweep {vs : List Int} (h : Invariant t n ⟨[], s⟩)
    (hvs : ∀ v ∈ vs, IsVertex n v) (hs : Search.sweep t vs s = (.ok (), r)) :
    Invariant t n ⟨[], r⟩ ∧ (∀ v ∈ vs, r.color v ≠ .white) ∧
      ∀ u, IsVertex n u → s.color u ≠ .white → r.color u ≠ .white := by
  induction vs generalizing s with
  | nil =>
    obtain ⟨-, rfl⟩ := Prod.mk.inj hs
    exact ⟨h, fun v hv => absurd hv List.not_mem_nil, fun _ _ hne => hne⟩
  | cons v vs ih =>
    have hv : IsVertex n v := hvs v List.mem_cons_self
    have htail : ∀ w ∈ vs, IsVertex n w := fun w hw => hvs w (List.mem_cons_of_mem v hw)
    -- whether `v` is visited or skipped, it is not white when the rest begins
    have hstart : ∃ q, Invariant t n ⟨[], q⟩ ∧ q.color v ≠ .white ∧
        (∀ u, IsVertex n u → s.color u ≠ .white → q.color u ≠ .white) ∧
        Search.sweep t vs q = (.ok (), r) := by
      unfold Search.sweep at hs
      split at hs
      · rename_i hwhite
        split at hs
        · exact absurd (congrArg Prod.fst hs) (by simp)
        · rename_i q henter
          rw [Search.enter_eq_walk] at henter
          obtain ⟨hq, hvq, hlater⟩ := h.walk hv hwhite henter
          exact ⟨q, hq, hvq, hlater, hs⟩
      · rename_i hwhite
        exact ⟨s, h, hwhite, fun _ _ hne => hne, hs⟩
    obtain ⟨q, hq, hvq, hfirst, hrest⟩ := hstart
    obtain ⟨hr, hroots, hlater⟩ := ih hq htail hrest
    refine ⟨hr, fun w hw => ?_, fun u hu hne => hlater u hu (hfirst u hu hne)⟩
    rcases List.mem_cons.mp hw with rfl | hw
    · exact hlater w hv hvq
    · exact hroots w hw

theorem Invariant.sweep_error {vs : List Int} (h : Invariant t n ⟨[], s⟩)
    (hvs : ∀ v ∈ vs, IsVertex n v) (hs : Search.sweep t vs s = (.error e, r)) :
    e.Justified t n := by
  induction vs generalizing s with
  | nil => exact absurd (congrArg Prod.fst hs) (by simp [Search.sweep])
  | cons v vs ih =>
    have hv : IsVertex n v := hvs v List.mem_cons_self
    have htail : ∀ w ∈ vs, IsVertex n w := fun w hw => hvs w (List.mem_cons_of_mem v hw)
    unfold Search.sweep at hs
    split at hs
    · rename_i hwhite
      split at hs
      · rename_i e' q henter
        obtain rfl : e' = e := by simpa using congrArg Prod.fst hs
        rw [Search.enter_eq_walk] at henter
        exact h.walk_error hv hwhite henter
      · rename_i q henter
        rw [Search.enter_eq_walk] at henter
        exact ih (h.walk hv hwhite henter).1 htail hs
    · exact ih h htail hs

end Machine

/-! ## The whole search -/

/-- **What a finish order is**: every vertex once, and the target of each edge before
its source, where an edge may fail to be so only if it closes a cycle and the
search does not look for cycles. -/
structure Listing (t : Task σ) (n : Nat) (order : List Int) : Prop where
  /-- Every vertex is listed once, and nothing else. -/
  perm : order.Perm (vertices n)
  /-- Successors are vertices. -/
  closed : t.successors.Closed n
  /-- Targets are listed first, or lead back. -/
  before : ∀ v, IsVertex n v → ∀ u ∈ t.successors v,
    [u, v].Sublist order ∨ t.options.detectCycles = false ∧ t.successors.Reaches u v

/-- At the end of a search that left nothing white, the finished vertices are a
finish order. -/
theorem Search.Coherent.listing {s : Search σ} (h : s.Coherent t n [])
    (hdone : ∀ v, IsVertex n v → s.color v ≠ .white) : Listing t n s.finished.toList := by
  have hblack : ∀ v, IsVertex n v → v ∈ s.finished.toList := by
    intro v hv
    refine (h.mem_finished v).mpr ⟨hv, ?_⟩
    cases hc : s.color v with
    | white => exact absurd hc (hdone v hv)
    | gray => exact absurd ((h.gray_iff v hv).mp hc) List.not_mem_nil
    | black => rfl
  refine ⟨?_, fun v hv u hu => (h.settled v (hblack v hv) u hu).isVertex,
    fun v hv u hu => (h.settled v (hblack v hv) u hu).before⟩
  refine (List.perm_ext_iff_of_nodup h.nodup_finished (nodup_vertices n)).mpr (fun v => ?_)
  rw [mem_vertices]
  exact ⟨fun hv => ((h.mem_finished v).mp hv).1, hblack v⟩

variable {g : Successors} {k : Int} {o : Options σ} {c c' : σ}

/-- **A search that succeeds gives a finish order.** -/
theorem listing_of_finishOrder {order : Array Int}
    (h : finishOrder (some g) k o c = (.ok order, c')) :
    0 ≤ k ∧ Listing ⟨g, o⟩ k.toNat order.toList := by
  unfold finishOrder at h
  dsimp only at h
  split at h
  · exact absurd (congrArg Prod.fst h) (by simp)
  · rename_i hk
    split at h
    · exact absurd (congrArg Prod.fst h) (by simp)
    · rename_i s hsweep
      obtain rfl : s.finished = order := by simpa using congrArg Prod.fst h
      obtain ⟨hinv, hroots, -⟩ := (Machine.Invariant.start ⟨g, o⟩ k.toNat c).sweep
        (fun v hv => mem_vertices.mp hv) hsweep
      exact ⟨Int.not_lt.mp hk,
        hinv.coherent.listing (fun v hv => hroots v (mem_vertices.mpr hv))⟩

/-- **A search that fails names a cause that is there.** -/
theorem justified_of_finishOrder {e : SortError} (hk : 0 ≤ k)
    (h : finishOrder (some g) k o c = (.error e, c')) : e.Justified ⟨g, o⟩ k.toNat := by
  unfold finishOrder at h
  dsimp only at h
  rw [if_neg (Int.not_lt.mpr hk)] at h
  split at h
  · rename_i e' s hsweep
    obtain rfl : e' = e := by simpa using congrArg Prod.fst h
    exact (Machine.Invariant.start ⟨g, o⟩ k.toNat c).sweep_error
      (fun v hv => mem_vertices.mp hv) hsweep
  · exact absurd (congrArg Prod.fst h) (by simp)

end TopologicalOrder
