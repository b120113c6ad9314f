import TopologicalOrder.Proofs.Reachability

/-!
# What the three actions do

A search changes its state by three actions only, and what is proved of a search
is proved from what is said of them here. Each action gets one statement for the
case in which it succeeds – which vertex changes its colour, and that nothing
else does – and one for the case in which it fails, which names the cause.

`discover` and `finish` call the client, and the client's state is the only part
of the search that a call can touch (`colors_of_announce`). `examine` changes
nothing: it is a decision about the colour of the successor, which the three
equivalences `examine_eq_descend`, `examine_eq_pass` and `examine_eq_error`
spell out.
-/

namespace TopologicalOrder.Search

variable {σ : Type} {t : Task σ} {n : Nat} {s r : Search σ} {u v : Int}

/-! ## Colours -/

@[simp] theorem order_paint (s : Search σ) (v : Int) (c : Color) :
    (s.paint v c).order = s.order := by
  simp [order, paint]

@[simp] theorem order_start (n : Nat) (c : σ) : (start n c).order = n := by
  simp [order, start]

@[simp] theorem color_start (n : Nat) (c : σ) (v : Int) : (start n c).color v = .white := by
  simp only [color, start, Array.getD_eq_getD_getElem?, Array.getElem?_replicate]
  split <;> rfl

/-- Painting a vertex changes its colour and no other. -/
theorem color_paint (c : Color) (hv : IsVertex s.order v) (hu : IsVertex s.order u) :
    (s.paint v c).color u = if u = v then c else s.color u :=
  getD_setIfInBounds_toNat s.colors c .white hv hu

/-- The colours of a state determine the colour of each vertex. -/
theorem color_congr (h : r.colors = s.colors) (u : Int) : r.color u = s.color u := by
  rw [color, color, h]

theorem order_congr (h : r.colors = s.colors) : r.order = s.order := by
  rw [order, order, h]

/-! ## Calling the client -/

/-- **A call touches the client's state only.** -/
theorem colors_of_announce {hook : Option (Hook σ)} {reply : Option String}
    (h : announce hook v s = (reply, r)) : r.colors = s.colors ∧ r.finished = s.finished := by
  obtain rfl : (announce hook v s).2 = r := congrArg Prod.snd h
  refine ⟨colors_announce hook v s, ?_⟩
  cases hook <;> rfl

/-- A call fails only because there is a hook, and the hook said so. -/
theorem hook_of_announce {hook : Option (Hook σ)} {reason : String}
    (h : announce hook v s = (some reason, r)) :
    ∃ call, hook = some call ∧ (call v s.client).1 = some reason := by
  cases hook with
  | none => exact absurd (congrArg Prod.fst h) (by simp [announce])
  | some call => exact ⟨call, rfl, congrArg Prod.fst h⟩

/-! ## Discovering -/

theorem discover_eq_ok {us : List Int} :
    discover t v s = (.ok us, r) ↔ t.options.watch s.client = none ∧
      announce t.options.onVisit v (s.paint v .gray) = (none, r) ∧ us = t.successors v := by
  unfold discover
  cases t.options.watch s.client with
  | some cause => simp
  | none =>
    cases announce t.options.onVisit v (s.paint v .gray) with
    | mk reply q => cases reply <;> simp [and_comm, eq_comm]

/-- **A discovered vertex is gray and nothing else has changed.** -/
theorem color_of_discover {us : List Int} (hn : s.order = n) (hv : IsVertex n v)
    (h : discover t v s = (.ok us, r)) (hu : IsVertex n u) :
    r.color u = if u = v then .gray else s.color u := by
  subst hn
  obtain ⟨-, hcall, -⟩ := discover_eq_ok.mp h
  rw [color_congr (colors_of_announce hcall).1, color_paint .gray hv hu]

/-- A discovery makes no vertex white. -/
theorem ne_white_of_discover {us : List Int} (hn : s.order = n) (hv : IsVertex n v)
    (h : discover t v s = (.ok us, r)) (hu : IsVertex n u) (hne : s.color u ≠ .white) :
    r.color u ≠ .white := by
  rw [color_of_discover hn hv h hu]
  split
  · exact fun hc => nomatch hc
  · exact hne

theorem order_of_discover {us : List Int} (h : discover t v s = (.ok us, r)) :
    r.order = s.order := by
  obtain ⟨-, hcall, -⟩ := discover_eq_ok.mp h
  rw [order_congr (colors_of_announce hcall).1, order_paint]

theorem finished_of_discover {us : List Int} (h : discover t v s = (.ok us, r)) :
    r.finished = s.finished := by
  obtain ⟨-, hcall, -⟩ := discover_eq_ok.mp h
  exact (colors_of_announce hcall).2

/-- **A discovery fails because of the client**: its watch stops the search, or its
hook fails on the vertex. -/
theorem discover_eq_error {e : SortError} (h : discover t v s = (.error e, r)) :
    (∃ cause, t.options.watch s.client = some cause ∧ e = .interrupted cause) ∨
      ∃ call reason, t.options.onVisit = some call ∧ (call v s.client).1 = some reason ∧
        e = .hookFailed .visit v reason := by
  unfold discover at h
  split at h
  · rename_i cause hwatch
    refine Or.inl ⟨cause, hwatch, ?_⟩
    simpa using (congrArg Prod.fst h).symm
  · split at h
    · rename_i reason q hcall
      obtain ⟨call, hhook, hreply⟩ := hook_of_announce hcall
      refine Or.inr ⟨call, reason, hhook, hreply, ?_⟩
      simpa using (congrArg Prod.fst h).symm
    · exact absurd (congrArg Prod.fst h) (by simp)

/-! ## Examining -/

theorem examine_of_isVertex (t : Task σ) (v : Int) (hu : IsVertex s.order u) :
    examine t v u s =
      match s.color u with
      | .white => .ok true
      | .gray => if t.options.detectCycles then .error (.cycle v u) else .ok false
      | .black => .ok false :=
  if_pos hu

theorem examine_of_not_isVertex (t : Task σ) (v : Int) (hu : ¬ IsVertex s.order u) :
    examine t v u s = .error (.outOfRange u v s.order) :=
  if_neg hu

/-- A search descends into the white vertices. -/
theorem examine_eq_descend :
    examine t v u s = .ok true ↔ IsVertex s.order u ∧ s.color u = .white := by
  constructor
  · exact white_of_examine
  · rintro ⟨hu, hwhite⟩
    rw [examine_of_isVertex t v hu, hwhite]

/-- A search passes by the black vertices and, unless it looks for cycles, the
gray ones. -/
theorem examine_eq_pass :
    examine t v u s = .ok false ↔ IsVertex s.order u ∧
      (s.color u = .black ∨ s.color u = .gray ∧ t.options.detectCycles = false) := by
  by_cases hu : IsVertex s.order u
  · rw [examine_of_isVertex t v hu]
    cases s.color u <;> cases t.options.detectCycles <;> simp [hu]
  · rw [examine_of_not_isVertex t v hu]
    simp [hu]

/-- **An edge is refused** because its target is no vertex, or because the search
looks for cycles and the target is on the current path. -/
theorem examine_eq_error {e : SortError} :
    examine t v u s = .error e ↔
      ¬ IsVertex s.order u ∧ e = .outOfRange u v s.order ∨
        IsVertex s.order u ∧ s.color u = .gray ∧ t.options.detectCycles = true ∧
          e = .cycle v u := by
  by_cases hu : IsVertex s.order u
  · rw [examine_of_isVertex t v hu]
    cases s.color u <;> cases t.options.detectCycles <;>
      simp [hu, eq_comm (a := SortError.cycle v u)]
  · rw [examine_of_not_isVertex t v hu]
    simp [hu, eq_comm (a := SortError.outOfRange u v s.order)]

/-! ## Finishing -/

theorem finish_eq_ok :
    finish t v s = (.ok (), r) ↔
      ∃ q, announce t.options.onExit v s = (none, q) ∧ r = q.retire v := by
  unfold finish
  cases announce t.options.onExit v s with
  | mk reply q => cases reply <;> simp [eq_comm]

/-- **A finished vertex is black and nothing else has changed colour.** -/
theorem color_of_finish (hn : s.order = n) (hv : IsVertex n v)
    (h : finish t v s = (.ok (), r)) (hu : IsVertex n u) :
    r.color u = if u = v then .black else s.color u := by
  obtain ⟨q, hcall, rfl⟩ := finish_eq_ok.mp h
  have hcolors := (colors_of_announce hcall).1
  rw [← hn, ← order_congr hcolors] at hv hu
  rw [← color_congr hcolors u]
  exact color_paint .black hv hu

/-- Finishing a vertex makes none white. -/
theorem ne_white_of_finish (hn : s.order = n) (hv : IsVertex n v)
    (h : finish t v s = (.ok (), r)) (hu : IsVertex n u) (hne : s.color u ≠ .white) :
    r.color u ≠ .white := by
  rw [color_of_finish hn hv h hu]
  split
  · exact fun hc => nomatch hc
  · exact hne

theorem order_of_finish (h : finish t v s = (.ok (), r)) : r.order = s.order := by
  obtain ⟨q, hcall, rfl⟩ := finish_eq_ok.mp h
  exact (order_paint q v .black).trans (order_congr (colors_of_announce hcall).1)

/-- A finished vertex is the last one on the list. -/
theorem finished_of_finish (h : finish t v s = (.ok (), r)) :
    r.finished.toList = s.finished.toList ++ [v] := by
  obtain ⟨q, hcall, rfl⟩ := finish_eq_ok.mp h
  rw [← (colors_of_announce hcall).2]
  exact Array.toList_push

/-- **Finishing a vertex fails because the client's hook fails on it.** -/
theorem finish_eq_error {e : SortError} (h : finish t v s = (.error e, r)) :
    ∃ call reason, t.options.onExit = some call ∧ (call v s.client).1 = some reason ∧
      e = .hookFailed .exit v reason := by
  unfold finish at h
  split at h
  · rename_i reason q hcall
    obtain ⟨call, hhook, hreply⟩ := hook_of_announce hcall
    refine ⟨call, reason, hhook, hreply, ?_⟩
    simpa using (congrArg Prod.fst h).symm
  · exact absurd (congrArg Prod.fst h) (by simp)

end TopologicalOrder.Search
