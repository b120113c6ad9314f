import Mathlib
import TopologicalOrder.Proofs.Recording
import TopologicalOrder.Proofs.TopologicalSort

/-!
# Looking for cycles and checking the order

There are two ways to find out whether a graph has a cycle: to let the sort look
for one, or to sort without looking and check the order that comes out. They agree,
although one asks whether an edge leads to a gray vertex and the other whether it
leads to an earlier place (`detection_agrees_with_verification`).

On the side of the check, a finish order of a closed graph, turned round, is
accepted exactly if the graph has no cycle (`Listing.verify_reverse_eq_ok`).

On the side of the search, looking for cycles changes nothing but the answer to one
kind of edge, and that answer ends the search. So a search that looks for cycles is
the search that does not, or is *cut short*: it reports a cycle, and the client is
left in a state that the other search goes on from (`CutShort`). What can be said of
the state of a client as a search goes on is what can be said of one call
(`Options.Advances`); for a client that writes its calls down it is that the record
grows.
-/

namespace TopologicalOrder

variable {σ : Type} {R : σ → σ → Prop} {t : Task σ}

/-! ## The client's state as a search goes on -/

/-- **Every call takes the client's state further** in the preorder `R`. -/
structure Options.Advances (R : σ → σ → Prop) (o : Options σ) : Prop where
  /-- A state is as far as itself. -/
  refl : ∀ c, R c c
  /-- What is further than a further state is further. -/
  trans : ∀ {a b c}, R a b → R b c → R a c
  /-- A visit goes further. -/
  onVisit : ∀ v c, R c (Hook.call o.onVisit v c).2
  /-- An exit goes further. -/
  onExit : ∀ v c, R c (Hook.call o.onExit v c).2

theorem Options.recorded_advances (o : Options σ) :
    o.recorded.Advances fun c d => c.2 <+: d.2 where
  refl _ := List.prefix_rfl
  trans := List.IsPrefix.trans
  onVisit v c := by
    show c.2 <+: (Hook.call (o.onVisit.map (Hook.recorded .visit)) v c).2.2
    cases o.onVisit with
    | none => exact List.prefix_rfl
    | some call => exact List.prefix_append _ _
  onExit v c := by
    show c.2 <+: (Hook.call (o.onExit.map (Hook.recorded .exit)) v c).2.2
    cases o.onExit with
    | none => exact List.prefix_rfl
    | some call => exact List.prefix_append _ _

theorem Search.discover_advances (ht : t.options.Advances R) (v : Int) (s : Search σ) :
    R s.client (discover t v s).2.client := by
  rw [client_discover]
  split
  · exact ht.refl _
  · exact ht.onVisit v _

theorem Search.finish_advances (ht : t.options.Advances R) (v : Int) (s : Search σ) :
    R s.client (finish t v s).2.client := by
  rw [client_finish]
  exact ht.onExit v _

/-- **A step takes the client further**, whether it succeeds or not. -/
theorem Machine.step_advances (ht : t.options.Advances R) (m : Machine σ) :
    R m.search.client (step t m).2.search.client := by
  obtain ⟨frames, s⟩ := m
  cases frames with
  | nil => exact ht.refl _
  | cons f fs =>
    unfold step
    dsimp only
    split
    · cases Search.examine t f.vertex f.successors[f.next] s with
      | error e => exact ht.refl _
      | ok descend =>
        cases descend with
        | false => exact ht.refl _
        | true =>
          have hd := Search.discover_advances ht f.successors[f.next] s
          dsimp only
          cases h : Search.discover t f.successors[f.next] s with
          | mk found r =>
            rw [h] at hd
            cases found <;> exact hd
    · have hf := Search.finish_advances ht f.vertex s
      cases h : Search.finish t f.vertex s with
      | mk out r =>
        rw [h] at hf
        cases out <;> exact hf

/-- **A whole loop takes the client further.** -/
theorem Machine.run_advances (ht : t.options.Advances R) (m : Machine σ) :
    R m.search.client (run t m).2.client := by
  induction m using run.induct t with
  | case1 s =>
    rw [run]
    exact ht.refl _
  | case2 f fs s e m hstep =>
    have h := step_advances ht ⟨f :: fs, s⟩
    rw [hstep] at h
    rw [run, hstep]
    exact h
  | case3 f fs s m hstep ih =>
    have h := step_advances ht ⟨f :: fs, s⟩
    rw [hstep] at h
    rw [run, hstep]
    exact ht.trans h ih

theorem Search.enter_advances (ht : t.options.Advances R) (v : Int) (s : Search σ) :
    R s.client (enter t v s).2.client := by
  have hd := discover_advances ht v s
  rw [enter_eq_walk]
  unfold walk
  cases h : discover t v s with
  | mk found r =>
    rw [h] at hd
    cases found with
    | error e => exact hd
    | ok us => exact ht.trans hd (Machine.run_advances ht ⟨[Frame.enter v us], r⟩)

/-- **Going over the roots takes the client further.** -/
theorem Search.sweep_advances (ht : t.options.Advances R) (vs : List Int) (s : Search σ) :
    R s.client (sweep t vs s).2.client := by
  induction vs generalizing s with
  | nil => exact ht.refl _
  | cons v vs ih =>
    unfold sweep
    cases s.color v with
    | white =>
      have he := enter_advances ht v s
      dsimp only
      cases h : enter t v s with
      | mk out r =>
        rw [h] at he
        cases out with
        | error e => exact he
        | ok => exact ht.trans he (ih r)
    | gray => exact ih s
    | black => exact ih s

/-! ## A search that is cut short -/

/-- **`x` is what `y` is, or it is `y` cut short**: it reports a cycle, and `y` has gone
further. -/
def CutShort {α τ : Type} (R : τ → τ → Prop) (x y : Except SortError α × τ) : Prop :=
  x = y ∨ (∃ v u, x.1 = .error (.cycle v u)) ∧ R x.2 y.2

/-- What is cut short is a report of a cycle with the state it leaves. -/
theorem CutShort.eq_or_cycle {α τ : Type} {R : τ → τ → Prop} {x y : Except SortError α × τ}
    (h : CutShort R x y) : x = y ∨ ∃ v u c, x = (.error (.cycle v u), c) ∧ R c y.2 := by
  rcases h with rfl | ⟨⟨v, u, hcycle⟩, hr⟩
  · exact Or.inl rfl
  · exact Or.inr ⟨v, u, x.2, Prod.ext hcycle rfl, hr⟩

section

variable (g : Successors) {o : Options σ} (ho : o.Advances R)

/-- Looking for cycles changes the answer to an edge only to report it. -/
theorem Search.examine_detectCycles (v u : Int) (s : Search σ) :
    examine ⟨g, { o with detectCycles := true }⟩ v u s =
        examine ⟨g, { o with detectCycles := false }⟩ v u s ∨
      examine ⟨g, { o with detectCycles := true }⟩ v u s = .error (.cycle v u) := by
  unfold examine
  split
  · cases s.color u with
    | white => exact Or.inl rfl
    | gray => exact Or.inr rfl
    | black => exact Or.inl rfl
  · exact Or.inl rfl

/-- **One step is the same step, or reports a cycle and changes nothing.** -/
theorem Machine.step_detectCycles (m : Machine σ) :
    step ⟨g, { o with detectCycles := true }⟩ m =
        step ⟨g, { o with detectCycles := false }⟩ m ∨
      ∃ v u m', step ⟨g, { o with detectCycles := true }⟩ m = (.error (.cycle v u), m') ∧
        m'.search = m.search := by
  obtain ⟨frames, s⟩ := m
  cases frames with
  | nil => exact Or.inl rfl
  | cons f fs =>
    unfold step
    dsimp only
    split
    · rcases Search.examine_detectCycles (o := o) g f.vertex f.successors[f.next] s with
        hsame | hcycle
      · rw [hsame]
        exact Or.inl rfl
      · rw [hcycle]
        exact Or.inr ⟨_, _, _, rfl, rfl⟩
    · exact Or.inl rfl

include ho

theorem Machine.run_cutShort (m : Machine σ) :
    CutShort (fun s r => R s.client r.client) (run ⟨g, { o with detectCycles := true }⟩ m)
      (run ⟨g, { o with detectCycles := false }⟩ m) := by
  have hoff : ({ o with detectCycles := false } : Options σ).Advances R :=
    ⟨ho.refl, ho.trans, ho.onVisit, ho.onExit⟩
  induction m using run.induct ⟨g, { o with detectCycles := true }⟩ with
  | case1 s =>
    rw [run, run]
    exact Or.inl rfl
  | case2 f fs s e m hstep =>
    rcases step_detectCycles (o := o) g ⟨f :: fs, s⟩ with hsame | ⟨v, u, m', hcycle, hm'⟩
    · rw [run, hstep, run, ← hsame, hstep]
      exact Or.inl rfl
    · -- the other search goes on from the same state
      obtain ⟨he, rfl⟩ := Prod.mk.inj (hstep.symm.trans hcycle)
      obtain rfl := Except.error.inj he
      have hrest := run_advances (t := ⟨g, { o with detectCycles := false }⟩) hoff ⟨f :: fs, s⟩
      rw [run, hstep]
      refine Or.inr ⟨⟨v, u, rfl⟩, ?_⟩
      show R m.search.client _
      rw [hm']
      exact hrest
  | case3 f fs s m hstep ih =>
    rcases step_detectCycles (o := o) g ⟨f :: fs, s⟩ with hsame | ⟨v, u, m', hcycle, -⟩
    · rw [run, hstep, run.eq_def ⟨g, { o with detectCycles := false }⟩]
      dsimp only
      rw [← hsame, hstep]
      exact ih
    · cases hstep.symm.trans hcycle

theorem Search.enter_cutShort (v : Int) (s : Search σ) :
    CutShort (fun s r => R s.client r.client) (enter ⟨g, { o with detectCycles := true }⟩ v s)
      (enter ⟨g, { o with detectCycles := false }⟩ v s) := by
  rw [enter_eq_walk, enter_eq_walk]
  unfold walk
  rw [show discover ⟨g, { o with detectCycles := true }⟩ v s =
    discover ⟨g, { o with detectCycles := false }⟩ v s from rfl]
  cases discover ⟨g, { o with detectCycles := false }⟩ v s with
  | mk found r =>
    cases found with
    | error e => exact Or.inl rfl
    | ok us => exact Machine.run_cutShort g ho _

theorem Search.sweep_cutShort (vs : List Int) (s : Search σ) :
    CutShort (fun s r => R s.client r.client) (sweep ⟨g, { o with detectCycles := true }⟩ vs s)
      (sweep ⟨g, { o with detectCycles := false }⟩ vs s) := by
  have hoff : ({ o with detectCycles := false } : Options σ).Advances R :=
    ⟨ho.refl, ho.trans, ho.onVisit, ho.onExit⟩
  induction vs generalizing s with
  | nil => exact Or.inl rfl
  | cons v vs ih =>
    have hroot := enter_cutShort g ho v s
    unfold sweep
    cases s.color v with
    | gray => exact ih s
    | black => exact ih s
    | white =>
      dsimp only
      generalize enter ⟨g, { o with detectCycles := true }⟩ v s = x at hroot ⊢
      generalize enter ⟨g, { o with detectCycles := false }⟩ v s = y at hroot ⊢
      rcases hroot.eq_or_cycle with rfl | ⟨a, b, r, rfl, hfurther⟩
      · obtain ⟨answer, r⟩ := x
        cases answer with
        | error e => exact Or.inl rfl
        | ok => exact ih r
      · refine Or.inr ⟨⟨a, b, rfl⟩, ?_⟩
        obtain ⟨answer, q⟩ := y
        cases answer with
        | error e => exact hfurther
        | ok =>
          -- the roots to come take the client of the other search further still
          exact ho.trans hfurther
            (sweep_advances (t := ⟨g, { o with detectCycles := false }⟩) hoff vs q)

omit g in
/-- **A search that looks for cycles is the search that does not, or is cut short.** -/
theorem finishOrder_cutShort (g : Option Successors) (n : Int) (c : σ) :
    CutShort R (finishOrder g n { o with detectCycles := true } c)
      (finishOrder g n { o with detectCycles := false } c) := by
  cases g with
  | none => exact Or.inl rfl
  | some g =>
    have hsweep := Search.sweep_cutShort g ho (vertices n.toNat) (Search.start n.toNat c)
    unfold finishOrder
    dsimp only
    split
    · exact Or.inl rfl
    · generalize Search.sweep ⟨g, { o with detectCycles := true }⟩ _ _ = x at hsweep ⊢
      generalize Search.sweep ⟨g, { o with detectCycles := false }⟩ _ _ = y at hsweep ⊢
      rcases hsweep.eq_or_cycle with rfl | ⟨v, u, s, rfl, hfurther⟩
      · exact Or.inl rfl
      · refine Or.inr ⟨⟨v, u, rfl⟩, ?_⟩
        obtain ⟨answer, r⟩ := y
        cases answer <;> exact hfurther

omit g in
theorem topologicalSort_cutShort (g : Option Successors) (n : Int) (c : σ) :
    CutShort R (topologicalSort g n { o with detectCycles := true } c)
      (topologicalSort g n { o with detectCycles := false } c) := by
  have hfinish := finishOrder_cutShort ho g n c
  unfold topologicalSort
  generalize finishOrder g n { o with detectCycles := true } c = x at hfinish ⊢
  generalize finishOrder g n { o with detectCycles := false } c = y at hfinish ⊢
  rcases hfinish.eq_or_cycle with rfl | ⟨v, u, d, rfl, hfurther⟩
  · exact Or.inl rfl
  · refine Or.inr ⟨⟨v, u, rfl⟩, ?_⟩
    obtain ⟨answer, r⟩ := y
    cases answer <;> exact hfurther

end

/-! ## Checking a finish order -/

variable {n : Nat}

/-- **A finish order, turned round, is accepted exactly if there is no cycle.** -/
theorem Listing.verify_reverse_eq_ok {xs : Array Int} (h : Listing t n xs.toList) :
    verify (some t.successors) n (reverse xs) = .ok () ↔ t.successors.Acyclic n := by
  have hperm : (reverse xs).toList.Perm (vertices n) := h.perm_reverse
  have hmem : ∀ v, v ∈ (reverse xs).toList ↔ IsVertex n v := fun v => by
    rw [hperm.mem_iff, mem_vertices]
  rw [verify_eq_ok_of_perm hperm]
  constructor
  · -- the places still to come are fewer at the target of an edge
    intro hforward
    refine Successors.acyclic_of_rank (fun v => n - (reverse xs).toList.idxOf v)
      (fun u v hedge => ?_)
    obtain ⟨hu, hv, hmem_uv⟩ := hedge
    have hlt := (precedes_iff ((hmem u).mpr hu) ((hmem v).mpr hv)).mp (hforward u hu v hmem_uv).2
    have hle := List.idxOf_lt_length_of_mem ((hmem v).mpr hv)
    rw [hperm.length_eq, length_vertices] at hle
    omega
  · intro hacyclic u hu v hv
    refine ⟨h.closed u hu v hv, ?_⟩
    rcases h.before u hu v hv with hsub | ⟨-, hback⟩
    · refine precedes_of_sublist (hperm.nodup_iff.mpr (nodup_vertices n)) ?_
      rw [toList_reverse]
      exact hsub.reverse
    · exact absurd hacyclic (h.closed.not_acyclic hu hv hback)

/-! ## The two ways agree -/

theorem Options.Unhindered.recorded {o : Options σ} (ho : o.Unhindered) :
    o.recorded.Unhindered where
  watch c := ho.watch c.1
  onVisit call hcall v c := by
    obtain ⟨inner, hinner, rfl⟩ := Option.map_eq_some_iff.mp hcall
    exact ho.onVisit inner hinner v c.1
  onExit call hcall v c := by
    obtain ⟨inner, hinner, rfl⟩ := Option.map_eq_some_iff.mp hcall
    exact ho.onExit inner hinner v c.1

variable {g : Successors} {o : Options σ} {c : σ}

/-- A search that its client does not stop and that does not look for cycles succeeds on
a closed graph. -/
theorem exists_order_of_closed (hg : g.Closed n) (ho : o.Unhindered)
    (hoff : o.detectCycles = false) :
    ∃ order, (topologicalSort (some g) n o c).1 = .ok order := by
  cases h : (topologicalSort (some g) n o c).1 with
  | ok order => exact ⟨order, rfl⟩
  | error e =>
    rcases (justified_of_topologicalSort h).of_unhindered ho with
      ⟨u, v, -, hv, hu, hout⟩ | ⟨hon, -⟩
    · exact absurd (hg v hv u hu) hout
    · exact nomatch hoff.symm.trans hon

/-- A search that its client does not stop and that looks for cycles fails on a closed
graph exactly if there is one. -/
theorem exists_error_iff_not_acyclic (hg : g.Closed n) (ho : o.Unhindered)
    (hon : o.detectCycles = true) :
    (∃ e, (topologicalSort (some g) n o c).1 = .error e) ↔ ¬ g.Acyclic n := by
  constructor
  · rintro ⟨e, h⟩
    rcases (justified_of_topologicalSort h).of_unhindered ho with
      ⟨u, v, -, hv, hu, hout⟩ | ⟨-, v, u, -, hv, hu, hback⟩
    · exact absurd (hg v hv u hu) hout
    · exact hg.not_acyclic hv hu hback
  · intro hcyclic
    cases h : (topologicalSort (some g) n o c).1 with
    | error e => exact ⟨e, rfl⟩
    | ok order =>
      obtain ⟨xs, hlist, -⟩ := finishOrder_of_topologicalSort h
      exact absurd (hlist.acyclic hon) hcyclic

/-- **Looking for cycles and checking the order afterwards agree.** On a closed graph,
for a client that never stops the search, sorting without looking for cycles gives
an order. Looking for cycles fails exactly if the check refuses that order, and the
check refuses it because of an edge that does not point forward. If looking for
cycles does not fail, it comes to the same in everything: the order, the state of
the client and the calls of its hooks. If it fails, it reports a cycle, and the
calls up to then are the first calls of the other search. -/
theorem detection_agrees_with_verification (hg : g.Closed n) (ho : o.Unhindered) :
    let detecting :=
      topologicalSort (some g) n ({ o with detectCycles := true } : Options σ).recorded (c, [])
    let plain :=
      topologicalSort (some g) n ({ o with detectCycles := false } : Options σ).recorded (c, [])
    ∃ order, plain.1 = .ok order ∧
      ((∃ e, detecting.1 = .error e) ↔ ∃ e, verify (some g) n order = .error e) ∧
      (∀ e, verify (some g) n order = .error e → ∃ u v, e = .violated u v) ∧
      (∀ order', detecting.1 = .ok order' → detecting = plain) ∧
      ∀ e, detecting.1 = .error e →
        (∃ v u, e = .cycle v u) ∧ detecting.2.2 <+: plain.2.2 := by
  intro detecting plain
  have hwatched : ∀ detect,
      ({ o with detectCycles := detect } : Options σ).recorded.Unhindered := fun detect =>
    Options.Unhindered.recorded ⟨ho.watch, ho.onVisit, ho.onExit⟩
  have hcut : CutShort (fun c d => c.2 <+: d.2) detecting plain :=
    topologicalSort_cutShort o.recorded_advances (some g) n (c, [])
  obtain ⟨order, horder⟩ : ∃ order, plain.1 = .ok order :=
    exists_order_of_closed hg (hwatched false) rfl
  obtain ⟨xs, hlist, rfl⟩ := finishOrder_of_topologicalSort horder
  have hverify : (∃ e, verify (some g) n (reverse xs) = .error e) ↔ ¬ g.Acyclic n := by
    rw [← hlist.verify_reverse_eq_ok]
    cases verify (some g) n (reverse xs) with
    | error e => exact iff_of_true ⟨e, rfl⟩ (fun h => nomatch h)
    | ok => exact iff_of_false (fun ⟨e, h⟩ => nomatch h) (fun h => h rfl)
  refine ⟨reverse xs, horder, ?_, fun e he => ?_, fun order' hok => ?_, fun e he => ?_⟩
  · rw [hverify]
    exact exists_error_iff_not_acyclic hg (hwatched true) rfl
  · exact violated_of_verify_eq_error hlist.perm_reverse hg he
  · rcases hcut with hsame | ⟨⟨v, u, hcycle⟩, -⟩
    · exact hsame
    · exact nomatch hok.symm.trans hcycle
  · rcases hcut with hsame | ⟨⟨v, u, hcycle⟩, hprefix⟩
    · rw [hsame, horder] at he
      exact nomatch he
    · exact ⟨⟨v, u, Except.error.inj (he.symm.trans hcycle)⟩, hprefix⟩

/-- A cycle behind an edge, for a client that counts its calls: the search that looks
for cycles stops at the edge from `3` back to `1`, before anything is exited. -/
theorem detection_agrees_with_verification_sample :
    let g := (Adjacency.ofList [(0, [1]), (1, [2]), (2, [3]), (3, [1])]).successors
    let count : Hook Nat := fun _ k => (none, k + 1)
    let o : Options Nat := { onVisit := some count, onExit := some count }
    let detecting :=
      topologicalSort (some g) 4 ({ o with detectCycles := true } : Options Nat).recorded (0, [])
    let plain :=
      topologicalSort (some g) 4 ({ o with detectCycles := false } : Options Nat).recorded (0, [])
    g.Closed 4 ∧ o.Unhindered ∧
      detecting = (.error (.cycle 3 1), (4, [(.visit, 0), (.visit, 1), (.visit, 2), (.visit, 3)])) ∧
      (∃ order, plain.1 = .ok order ∧ ∃ e, verify (some g) 4 order = .error e) ∧
      detecting.2.2 <+: plain.2.2 := by
  intro g count o detecting plain
  have hg : g.Closed 4 := by
    have hall : ∀ v ∈ vertices 4, ∀ u ∈ g v, IsVertex 4 u := by decide
    exact fun v hv => hall v (mem_vertices.mpr hv)
  have ho : o.Unhindered := by
    refine ⟨fun _ => rfl, fun call hcall v c => ?_, fun call hcall v c => ?_⟩
    · obtain rfl := Option.some.inj hcall
      rfl
    · obtain rfl := Option.some.inj hcall
      rfl
  have hcycle : detecting =
      (.error (.cycle 3 1), (4, [(.visit, 0), (.visit, 1), (.visit, 2), (.visit, 3)])) := by
    show topologicalSort (some g) 4 ({ o with detectCycles := true } : Options Nat).recorded
      (0, []) = _
    cbv
  obtain ⟨order, horder, hiff, -, -, hcut⟩ := detection_agrees_with_verification (c := 0) hg ho
  have herror : detecting.1 = .error (.cycle 3 1) := congrArg Prod.fst hcycle
  exact ⟨hg, ho, hcycle, ⟨order, horder, hiff.mp ⟨_, herror⟩⟩, (hcut _ herror).2⟩

/-! ## Sorts without a client -/

variable {st : Strategy} {detect : Bool}

/-- **The order of a sort that succeeds depends on the graph alone**, if there is no client
to stop it. -/
theorem topologicalSort_unattended {order : Array Int}
    (h : (topologicalSort (some g) n { strategy := st, detectCycles := detect } c).1 =
      .ok order) :
    (topologicalSort (some g) n {} c).1 = .ok order := by
  have hstrategy : topologicalSort (some g) n { strategy := st, detectCycles := detect } c =
      topologicalSort (some g) n { detectCycles := detect } c :=
    topologicalSort_strategy (some g) n { detectCycles := detect } st c
  rw [hstrategy] at h
  cases detect with
  | false => exact h
  | true =>
    -- the state of the client is of no interest here, so any relation on it will do
    have hfree : ({} : Options σ).Advances fun _ _ => True :=
      ⟨fun _ => trivial, fun _ _ => trivial, fun _ _ => trivial, fun _ _ => trivial⟩
    rcases topologicalSort_cutShort hfree (some g) n c with hsame | ⟨⟨v, u, hcycle⟩, -⟩
    · exact (congrArg Prod.fst hsame).symm.trans h
    · exact nomatch h.symm.trans hcycle

/-- **A closed graph is sorted unless a cycle is a failure and there is one.** -/
theorem exists_order_iff (hg : g.Closed n) :
    (∃ order, (topologicalSort (some g) n { strategy := st, detectCycles := detect } c).1 =
      .ok order) ↔ (detect = true → g.Acyclic n) := by
  have hfree := Options.unhindered_unattended (σ := σ) st detect
  cases detect with
  | false => exact iff_of_true (exists_order_of_closed hg hfree rfl) fun h => nomatch h
  | true =>
    have herror := exists_error_iff_not_acyclic (c := c) hg hfree rfl
    cases hs : (topologicalSort (some g) n { strategy := st, detectCycles := true } c).1 with
    | error e =>
      exact iff_of_false (fun h => nomatch h.choose_spec) fun h => herror.mp ⟨e, hs⟩ (h rfl)
    | ok order =>
      refine iff_of_true ⟨order, rfl⟩ fun _ => not_not.mp fun hcyclic => ?_
      obtain ⟨e, he⟩ := herror.mpr hcyclic
      exact nomatch hs.symm.trans he

end TopologicalOrder
