import TopologicalOrder.Proofs.Strategies

/-!
# Visits that succeed

A search that is compared with another one is best read as what it did. A visit that
succeeds has passed some successors by, visited the others one after the other, and
finished its vertex; `Search.Explores` says so, one rule for each of the three, and
`Search.Sweeps` says the same of all roots. Both are exactly the runs that succeed
(`Search.explore_eq_ok`, `Search.sweep_eq_ok`), whichever strategy was chosen.

What is kept on the way is then proved rule by rule. Nothing goes back in a search: a
vertex that has been discovered is never white again, a black one stays black, and
what is listed as finished stays where it is (`Search.Progress`). And a visit that
succeeds leaves its vertex black.

A whole search succeeds if the visits of its roots do (`finishOrder_eq_ok`).
-/

namespace TopologicalOrder

variable {σ : Type}

namespace Search

variable {t : Task σ} {s r q : Search σ} {u v : Int} {us ws vs : List Int}

/-! ## The runs that succeed -/

/-- **The exploration of the successors `us` of `v` takes `s` to `r`.** -/
inductive Explores (t : Task σ) : Int → List Int → Search σ → Search σ → Prop
  /-- No successor is left, and the vertex is finished. -/
  | leave {v : Int} {s r : Search σ} (hfinish : finish t v s = (.ok (), r)) :
      Explores t v [] s r
  /-- A successor calls for nothing. -/
  | pass {v u : Int} {us : List Int} {s r : Search σ} (hexamine : examine t v u s = .ok false)
      (hrest : Explores t v us s r) : Explores t v (u :: us) s r
  /-- A white successor is visited first. -/
  | descend {v u : Int} {us ws : List Int} {s p q r : Search σ}
      (hexamine : examine t v u s = .ok true) (hdiscover : discover t u s = (.ok ws, p))
      (hvisit : Explores t u ws p q) (hrest : Explores t v us q r) :
      Explores t v (u :: us) s r

/-- **The visits of the roots `vs` take `s` to `r`.** -/
inductive Sweeps (t : Task σ) : List Int → Search σ → Search σ → Prop
  /-- No root is left. -/
  | done (s : Search σ) : Sweeps t [] s s
  /-- A root has been discovered before. -/
  | skip {v : Int} {vs : List Int} {s r : Search σ} (hcolor : s.color v ≠ .white)
      (hrest : Sweeps t vs s r) : Sweeps t (v :: vs) s r
  /-- A white root is visited. -/
  | root {v : Int} {vs us : List Int} {s p q r : Search σ} (hwhite : s.color v = .white)
      (hdiscover : discover t v s = (.ok us, p)) (hvisit : Explores t v us p q)
      (hrest : Sweeps t vs q r) : Sweeps t (v :: vs) s r

theorem explore_eq_ok : (explore t v us s).val = (.ok (), r) ↔ Explores t v us s r := by
  constructor
  · intro h
    induction v, us, s using explore.induct t generalizing r with
    | case1 v s =>
      rw [explore_nil] at h
      exact .leave h
    | case2 v s u us e hexamine =>
      rw [explore_refuse hexamine] at h
      cases h
    | case3 v s u us hexamine ih =>
      rw [explore_pass hexamine] at h
      exact .pass hexamine (ih h)
    | case4 v s u us hexamine e p hdiscover =>
      rw [explore_undiscovered hexamine hdiscover] at h
      cases h
    | case5 v s u us hexamine ws p hdiscover _ e q _ hvisit _ =>
      rw [explore_descend hexamine hdiscover, hvisit] at h
      cases h
    | case6 v s u us hexamine ws p hdiscover _ q _ hvisit _ out _ hout ih₁ ih₂ =>
      rw [explore_descend hexamine hdiscover, hvisit] at h
      exact .descend hexamine hdiscover (ih₁ (congrArg Subtype.val hvisit)) (ih₂ h)
  · intro h
    induction h with
    | leave hfinish => rw [explore_nil, hfinish]
    | pass hexamine _ ih => rw [explore_pass hexamine, ih]
    | descend hexamine hdiscover _ _ ih₁ ih₂ =>
      rw [explore_descend hexamine hdiscover, ih₁]
      exact ih₂

/-- Whatever the client chose, a vertex is visited as it is by recursion. -/
theorem enter_eq_visit (t : Task σ) (v : Int) (s : Search σ) : enter t v s = visit t v s :=
  (enter_eq_walk t v s).trans (walk_eq_visit t v s)

theorem visit_of_discover (h : discover t v s = (.ok us, r)) :
    visit t v s = (explore t v us r).val := by
  rw [visit, h]

theorem sweep_of_ne_white (h : s.color v ≠ .white) : sweep t (v :: vs) s = sweep t vs s := by
  rw [sweep]
  split
  · contradiction
  · rfl

/-- **After visits that succeed the other roots are left.** -/
theorem Sweeps.sweep_append (h : Sweeps t vs s r) (ws : List Int) :
    sweep t (vs ++ ws) s = sweep t ws r := by
  induction h with
  | done => rfl
  | skip hcolor _ ih => rw [List.cons_append, sweep_of_ne_white hcolor, ih]
  | root hwhite hdiscover hvisit _ ih =>
    rw [List.cons_append, sweep, hwhite, enter_eq_visit, visit_of_discover hdiscover,
      explore_eq_ok.mpr hvisit]
    exact ih

theorem sweep_eq_ok : sweep t vs s = (.ok (), r) ↔ Sweeps t vs s r := by
  constructor
  · intro h
    induction vs generalizing s with
    | nil =>
      obtain rfl : s = r := congrArg Prod.snd h
      exact .done s
    | cons v vs ih =>
      by_cases hwhite : s.color v = .white
      · rw [sweep, hwhite, enter_eq_visit, visit] at h
        cases hdiscover : discover t v s with
        | mk found p =>
          rw [hdiscover] at h
          cases found with
          | error e => cases h
          | ok us =>
            dsimp only at h
            cases hvisit : (explore t v us p).val with
            | mk out q =>
              rw [hvisit] at h
              cases out with
              | error e => cases h
              | ok => exact .root hwhite hdiscover (explore_eq_ok.mp hvisit) (ih h)
      · rw [sweep_of_ne_white hwhite] at h
        exact .skip hwhite (ih h)
  · intro h
    have hall := h.sweep_append []
    rw [List.append_nil] at hall
    exact hall

/-! ## Nothing goes back -/

/-- **A search may go on from `s` to `r`.** -/
structure Progress (s r : Search σ) : Prop where
  /-- The vertices are the same. -/
  order_eq : r.order = s.order
  /-- What has been discovered is not white again. -/
  ne_white : ∀ u, IsVertex s.order u → s.color u ≠ .white → r.color u ≠ .white
  /-- What is black stays black. -/
  black : ∀ u, IsVertex s.order u → s.color u = .black → r.color u = .black
  /-- What is listed stays listed, in its place. -/
  finished : s.finished.toList <+: r.finished.toList

namespace Progress

theorem refl (s : Search σ) : Progress s s :=
  ⟨rfl, fun _ _ h => h, fun _ _ h => h, List.prefix_rfl⟩

theorem trans (h₁ : Progress s q) (h₂ : Progress q r) : Progress s r where
  order_eq := h₂.order_eq.trans h₁.order_eq
  ne_white u hu h := h₂.ne_white u (h₁.order_eq ▸ hu) (h₁.ne_white u hu h)
  black u hu h := h₂.black u (h₁.order_eq ▸ hu) (h₁.black u hu h)
  finished := h₁.finished.trans h₂.finished

theorem of_discover (hv : IsVertex s.order v) (hwhite : s.color v = .white)
    (h : discover t v s = (.ok us, r)) : Progress s r where
  order_eq := order_of_discover h
  ne_white _ hu := ne_white_of_discover rfl hv h hu
  black u hu hblack := by
    have hne : u ≠ v := by
      rintro rfl
      cases hwhite.symm.trans hblack
    rw [color_of_discover rfl hv h hu, if_neg hne]
    exact hblack
  finished := finished_of_discover h ▸ List.prefix_rfl

theorem of_finish (hv : IsVertex s.order v) (h : finish t v s = (.ok (), r)) : Progress s r where
  order_eq := order_of_finish h
  ne_white _ hu := ne_white_of_finish rfl hv h hu
  black u hu hblack := by rw [color_of_finish rfl hv h hu, hblack, ite_self]
  finished := by
    rw [finished_of_finish h]
    exact List.prefix_append _ _

/-- **What has been passed by once is passed by ever after.** -/
theorem examine_eq_pass (h : Progress s r) (hpass : examine t v u s = .ok false) :
    examine t v u r = .ok false := by
  obtain ⟨hu, hcolor⟩ := Search.examine_eq_pass.mp hpass
  refine Search.examine_eq_pass.mpr ⟨h.order_eq ▸ hu, ?_⟩
  rcases hcolor with hblack | ⟨hgray, hoff⟩
  · exact Or.inl (h.black u hu hblack)
  · have hne : r.color u ≠ .white := h.ne_white u hu (by rw [hgray]; decide)
    cases hc : r.color u with
    | white => exact absurd hc hne
    | gray => exact Or.inr ⟨rfl, hoff⟩
    | black => exact Or.inl rfl

end Progress

/-- **A visit goes on, and leaves its vertex black.** -/
theorem Explores.progress (h : Explores t v us s r) (hv : IsVertex s.order v) :
    Progress s r ∧ r.color v = .black := by
  induction h with
  | leave hfinish =>
    refine ⟨.of_finish hv hfinish, ?_⟩
    rw [color_of_finish rfl hv hfinish hv, if_pos rfl]
  | pass _ _ ih => exact ih hv
  | descend hexamine hdiscover _ _ ih₁ ih₂ =>
    obtain ⟨hu, hwhite⟩ := examine_eq_descend.mp hexamine
    have hstart : Progress _ _ := .of_discover hu hwhite hdiscover
    have hfirst := hstart.trans (ih₁ (hstart.order_eq ▸ hu)).1
    obtain ⟨hrest, hblack⟩ := ih₂ (hfirst.order_eq ▸ hv)
    exact ⟨hfirst.trans hrest, hblack⟩

/-- Discovering a white vertex and exploring its successors. -/
theorem Explores.progress_of_discover (h : Explores t v us q r) (hv : IsVertex s.order v)
    (hwhite : s.color v = .white) (hdiscover : discover t v s = (.ok us, q)) :
    Progress s r ∧ r.color v = .black := by
  have hstart : Progress s q := .of_discover hv hwhite hdiscover
  obtain ⟨hvisit, hblack⟩ := h.progress (hstart.order_eq ▸ hv)
  exact ⟨hstart.trans hvisit, hblack⟩

/-- The roots of a search are its vertices. -/
theorem isVertex_start (n : Nat) (c : σ) : ∀ v ∈ vertices n, IsVertex (start n c).order v := by
  intro v hv
  rw [order_start]
  exact mem_vertices.mp hv

theorem Sweeps.progress (h : Sweeps t vs s r) (hvs : ∀ v ∈ vs, IsVertex s.order v) :
    Progress s r := by
  induction h with
  | done s => exact .refl s
  | skip _ _ ih => exact ih (List.forall_mem_cons.mp hvs).2
  | root hwhite hdiscover hvisit _ ih =>
    obtain ⟨hv, hvs⟩ := List.forall_mem_cons.mp hvs
    have hfirst := (hvisit.progress_of_discover hv hwhite hdiscover).1
    exact hfirst.trans (ih fun w hw => hfirst.order_eq ▸ hvs w hw)

end Search

/-! ## The whole search -/

variable {g : Successors} {k : Int} {o : Options σ} {c c' : σ} {order : Array Int}

/-- **A search succeeds if the visits of all roots do**, and its answer is what they have
finished. -/
theorem finishOrder_eq_ok :
    finishOrder (some g) k o c = (.ok order, c') ↔
      0 ≤ k ∧ ∃ s, Search.Sweeps ⟨g, o⟩ (vertices k.toNat) (Search.start k.toNat c) s ∧
        s.finished = order ∧ s.client = c' := by
  unfold finishOrder
  dsimp only
  by_cases hk : k < 0
  · rw [if_pos hk]
    exact iff_of_false (fun h => nomatch congrArg Prod.fst h) fun h => absurd h.1 (by omega)
  · rw [if_neg hk]
    simp only [← Search.sweep_eq_ok]
    cases Search.sweep ⟨g, o⟩ (vertices k.toNat) (Search.start k.toNat c) with
    | mk out s => cases out <;> simp [Int.not_lt.mp hk]

end TopologicalOrder
