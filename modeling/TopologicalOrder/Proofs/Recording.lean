import Mathlib
import TopologicalOrder.Family.Basic
import TopologicalOrder.Proofs.DepthFirst
import TopologicalOrder.Proofs.Observation
import TopologicalOrder.Proofs.Outcome

/-!
# What a recording client writes down

The calls of a search follow the rules of a depth-first search. The link between
the two is short: the open intervals are the stack, the unvisited vertices are the
white ones, and the exited vertices are the finished ones (`Machine.Recorded`).
A step that passes a successor by calls nobody; a descent is the rule `descend`,
and leaving a vertex is the rule `leave`, since a frame that has no successor left
has met all of them. The roots are taken in ascending order, which is what the
rule `root` asks for.

So the laws of depth-first searches hold of what any client with both hooks writes
down, whatever else its hooks do and whichever strategy is chosen, as soon as the
search succeeds (`recorded_calls_lawful`).
-/

namespace TopologicalOrder

variable {σ : Type}

/-! ## What a client is left with -/

namespace Search

theorem client_announce (hook : Option (Hook σ)) (v : Int) (s : Search σ) :
    (announce hook v s).2.client = (Hook.call hook v s.client).2 := by
  rw [announce_eq]

/-- A discovery that is not stopped by the watch makes one call. -/
theorem client_discover (t : Task σ) (v : Int) (s : Search σ) :
    (discover t v s).2.client =
      if (t.options.watch s.client).isSome then s.client
      else (Hook.call t.options.onVisit v s.client).2 := by
  have hcall := client_announce t.options.onVisit v (s.paint v .gray)
  unfold discover
  cases t.options.watch s.client with
  | some cause => rfl
  | none =>
    rw [show (s.paint v .gray).client = s.client from rfl] at hcall
    cases ha : announce t.options.onVisit v (s.paint v .gray) with
    | mk reply r =>
      rw [ha] at hcall
      cases reply <;> exact hcall

theorem client_finish (t : Task σ) (v : Int) (s : Search σ) :
    (finish t v s).2.client = (Hook.call t.options.onExit v s.client).2 := by
  have hcall := client_announce t.options.onExit v s
  unfold finish
  cases ha : announce t.options.onExit v s with
  | mk reply r =>
    rw [ha] at hcall
    cases reply <;> exact hcall

end Search

/-! ## The record of a search -/

/-- **A client that writes down every call.** -/
structure Options.Records (o : Options (σ × Calls)) : Prop where
  /-- It writes down the visits. -/
  onVisit : ∀ v c, (Hook.call o.onVisit v c).2.2 = c.2 ++ [(.visit, v)]
  /-- It writes down the exits. -/
  onExit : ∀ v c, (Hook.call o.onExit v c).2.2 = c.2 ++ [(.exit, v)]

theorem Options.recorded_records {o : Options σ} (hvisit : o.onVisit.isSome)
    (hexit : o.onExit.isSome) : o.recorded.Records where
  onVisit v c := by
    obtain ⟨call, hcall⟩ := Option.isSome_iff_exists.mp hvisit
    simp only [Options.recorded, hcall]
    rfl
  onExit v c := by
    obtain ⟨call, hcall⟩ := Option.isSome_iff_exists.mp hexit
    simp only [Options.recorded, hcall]
    rfl

section

variable {t : Task (σ × Calls)} {n : Nat} {s r : Search (σ × Calls)} {v : Int}

theorem Search.calls_of_discover {us : List Int} (ht : t.options.Records)
    (hd : discover t v s = (.ok us, r)) : r.client.2 = s.client.2 ++ [(.visit, v)] := by
  have hclient := client_discover t v s
  rw [(discover_eq_ok.mp hd).1, hd] at hclient
  exact (congrArg Prod.snd hclient).trans (ht.onVisit v s.client)

theorem Search.calls_of_finish (ht : t.options.Records) (hf : finish t v s = (.ok (), r)) :
    r.client.2 = s.client.2 ++ [(.exit, v)] := by
  have hclient := client_finish t v s
  rw [hf] at hclient
  exact (congrArg Prod.snd hclient).trans (ht.onExit v s.client)

/-- **The state agrees with the record**: the white vertices are the unvisited ones,
and the finished vertices the exited ones. -/
structure Search.Noted (n : Nat) (s : Search (σ × Calls)) : Prop where
  /-- White is what has not been visited. -/
  white_iff : ∀ u, IsVertex n u → (s.color u = .white ↔ (.visit, u) ∉ s.client.2)
  /-- What has been exited is listed. -/
  exits_eq : Calls.exits s.client.2 = s.finished.toList

theorem Search.Noted.discover {us : List Int} (h : s.Noted n) (ht : t.options.Records)
    (hn : s.order = n) (hv : IsVertex n v) (hd : Search.discover t v s = (.ok us, r)) :
    r.Noted n := by
  have hcalls := calls_of_discover ht hd
  refine ⟨fun u hu => ?_, ?_⟩
  · rw [color_of_discover hn hv hd hu, hcalls]
    by_cases huv : u = v
    · simp [huv]
    · simpa [huv] using h.white_iff u hu
  · rw [hcalls, Calls.exits_concat_visit, finished_of_discover hd]
    exact h.exits_eq

theorem Search.Noted.finish (h : s.Noted n) (ht : t.options.Records) (hn : s.order = n)
    (hv : IsVertex n v) (hgray : s.color v = .gray)
    (hf : Search.finish t v s = (.ok (), r)) : r.Noted n := by
  have hcalls := calls_of_finish ht hf
  refine ⟨fun u hu => ?_, ?_⟩
  · rw [color_of_finish hn hv hf hu, hcalls]
    have hwhite : s.color u = .white ↔ (.visit, u) ∉ s.client.2 := h.white_iff u hu
    by_cases huv : u = v
    · subst huv
      simpa [hgray] using hwhite
    · simpa [huv] using hwhite
  · rw [hcalls, Calls.exits_concat_exit, finished_of_finish hf, h.exits_eq]

namespace Machine

/-- **A search whose record follows the rules**, its stack being the open intervals. -/
structure Recorded (t : Task (σ × Calls)) (n : Nat) (m : Machine (σ × Calls)) : Prop where
  /-- The stack agrees with the state. -/
  invariant : Invariant t n m
  /-- The record agrees with the stack. -/
  depthFirst : DepthFirst t.successors n m.path m.search.client.2
  /-- The state agrees with the record. -/
  noted : m.search.Noted n

variable {m m' : Machine (σ × Calls)} {f : Frame} {fs : List Frame} {u : Int}

theorem Recorded.start (t : Task (σ × Calls)) (n : Nat) (c : σ) :
    Recorded t n ⟨[], Search.start n (c, [])⟩ where
  invariant := Invariant.start t n (c, [])
  depthFirst := DepthFirst.start
  noted := ⟨fun u _ => iff_of_true (Search.color_start n (c, []) u) List.not_mem_nil, rfl⟩

/-- A root is visited when everything below it has been. -/
theorem Recorded.enter {us : List Int} (h : Recorded t n ⟨[], s⟩) (ht : t.options.Records)
    (hv : IsVertex n v) (hwhite : s.color v = .white)
    (hleast : ∀ u, IsVertex n u → u < v → s.color u ≠ .white)
    (hd : Search.discover t v s = (.ok us, r)) : Recorded t n ⟨[Frame.enter v us], r⟩ where
  invariant := h.invariant.enter hv hwhite hd
  depthFirst := by
    show DepthFirst t.successors n [v] r.client.2
    rw [Search.calls_of_discover ht hd]
    refine DepthFirst.root h.depthFirst hv ((h.noted.white_iff v hv).mp hwhite) ?_
    intro u hu hlt
    exact not_not.mp fun hnew => hleast u hu hlt ((h.noted.white_iff u hu).mpr hnew)
  noted := h.noted.discover ht h.invariant.coherent.order_eq hv hd

theorem Recorded.descend {us : List Int} (h : Recorded t n ⟨f :: fs, s⟩)
    (ht : t.options.Records) (hnext : f.successors[f.next]? = some u)
    (hexamine : Search.examine t f.vertex u s = .ok true)
    (hdiscover : Search.discover t u s = (.ok us, r)) :
    Recorded t n ⟨Frame.enter u us :: f.advance :: fs, r⟩ := by
  have horder : s.order = n := h.invariant.coherent.order_eq
  obtain ⟨hu, hwhite⟩ := Search.examine_eq_descend.mp hexamine
  rw [horder] at hu
  have hedge : u ∈ t.successors f.vertex := by
    rw [← h.invariant.stacked.1.successors_eq]
    exact List.mem_of_getElem? (by rw [Array.getElem?_toList]; exact hnext)
  refine ⟨h.invariant.descend hnext hexamine hdiscover, ?_,
    h.noted.discover ht horder hu hdiscover⟩
  show DepthFirst t.successors n (u :: f.vertex :: fs.map Frame.vertex) r.client.2
  rw [Search.calls_of_discover ht hdiscover]
  exact DepthFirst.descend h.depthFirst hedge hu ((h.noted.white_iff u hu).mp hwhite)

theorem Recorded.leave (h : Recorded t n ⟨f :: fs, s⟩) (ht : t.options.Records)
    (hdone : f.successors.size ≤ f.next)
    (hfinish : Search.finish t f.vertex s = (.ok (), r)) : Recorded t n ⟨fs, r⟩ := by
  have hcoherent := h.invariant.coherent
  have hv : IsVertex n f.vertex := hcoherent.isVertex f.vertex List.mem_cons_self
  have hgray : s.color f.vertex = .gray :=
    (hcoherent.gray_iff f.vertex hv).mpr List.mem_cons_self
  refine ⟨h.invariant.leave hdone hfinish, ?_,
    h.noted.finish ht hcoherent.order_eq hv hgray hfinish⟩
  show DepthFirst t.successors n (fs.map Frame.vertex) r.client.2
  rw [Search.calls_of_finish ht hfinish]
  refine DepthFirst.leave h.depthFirst (fun u hu => ?_)
  -- all successors have been examined, so none is white
  rw [← h.invariant.stacked.1.successors_eq, ← Frame.examined_eq_successors hdone] at hu
  obtain ⟨hvertex, hdiscovered⟩ := h.invariant.stacked.1.examined u hu
  exact not_not.mp fun hnew => hdiscovered ((h.noted.white_iff u hvertex).mpr hnew)

/-- **Every move keeps to the rules.** -/
theorem Recorded.move (ht : t.options.Records) (hm : Move t m m') (h : Recorded t n m) :
    Recorded t n m' := by
  cases hm with
  | pass hnext hexamine =>
    exact ⟨h.invariant.pass hnext hexamine, h.depthFirst, h.noted⟩
  | descend hnext hexamine hdiscover => exact h.descend ht hnext hexamine hdiscover
  | leave hdone hfinish => exact h.leave ht hdone hfinish

/-- **Visiting a root keeps to the rules.** -/
theorem Recorded.walk (h : Recorded t n ⟨[], s⟩) (ht : t.options.Records) (hv : IsVertex n v)
    (hwhite : s.color v = .white) (hleast : ∀ u, IsVertex n u → u < v → s.color u ≠ .white)
    (hw : Search.walk t v s = (.ok (), r)) : Recorded t n ⟨[], r⟩ := by
  unfold Search.walk at hw
  split at hw
  · exact absurd (congrArg Prod.fst hw) (by simp)
  · rename_i us q hd
    exact (moves_of_run_eq_ok hw).preserve (fun _ _ hm hk => hk.move ht hm)
      (h.enter ht hv hwhite hleast hd)

/-- **Going over the roots in ascending order keeps to the rules**, if what is not to
come has been discovered already. -/
theorem Recorded.sweep {vs : List Int} (h : Recorded t n ⟨[], s⟩) (ht : t.options.Records)
    (hvs : ∀ v ∈ vs, IsVertex n v) (hsorted : vs.Pairwise (· < ·))
    (hrest : ∀ u, IsVertex n u → u ∉ vs → s.color u ≠ .white)
    (hs : Search.sweep t vs s = (.ok (), r)) : Recorded t n ⟨[], r⟩ := by
  induction vs generalizing s with
  | nil =>
    obtain ⟨-, rfl⟩ := Prod.mk.inj hs
    exact h
  | cons v vs ih =>
    have hv : IsVertex n v := hvs v List.mem_cons_self
    have htail : ∀ w ∈ vs, IsVertex n w := fun w hw => hvs w (List.mem_cons_of_mem v hw)
    obtain ⟨hlt, hsorted⟩ := List.pairwise_cons.mp hsorted
    unfold Search.sweep at hs
    split at hs
    · rename_i hwhite
      split at hs
      · exact absurd (congrArg Prod.fst hs) (by simp)
      · rename_i q henter
        rw [Search.enter_eq_walk] at henter
        -- what is below `v` is not among the vertices to come
        have hleast : ∀ u, IsVertex n u → u < v → s.color u ≠ .white := by
          intro u hu huv
          refine hrest u hu (fun hmem => ?_)
          rcases List.mem_cons.mp hmem with rfl | hmem
          · exact Int.lt_irrefl _ huv
          · exact Int.lt_irrefl _ (Int.lt_trans huv (hlt u hmem))
        obtain ⟨-, hvq, hlater⟩ := h.invariant.walk hv hwhite henter
        refine ih (h.walk ht hv hwhite hleast henter) htail hsorted (fun u hu hnot => ?_) hs
        by_cases huv : u = v
        · exact huv ▸ hvq
        · refine hlater u hu (hrest u hu (fun hmem => ?_))
          exact (List.mem_cons.mp hmem).elim huv hnot
    · rename_i hwhite
      refine ih h htail hsorted (fun u hu hnot => ?_) hs
      by_cases huv : u = v
      · exact huv ▸ hwhite
      · exact hrest u hu (fun hmem => (List.mem_cons.mp hmem).elim huv hnot)

end Machine

end

variable {g : Successors} {k : Int} {c : σ}

/-- A search that succeeds for a client that writes down every call leaves a record
that follows the rules and holds every vertex. -/
theorem depthFirst_of_finishOrder {o : Options (σ × Calls)} {order : Array Int}
    {c' : σ × Calls} (ho : o.Records)
    (h : finishOrder (some g) k o (c, []) = (.ok order, c')) :
    0 ≤ k ∧ DepthFirst g k.toNat [] c'.2 ∧ c'.2.exits = order.toList ∧
      ∀ v, IsVertex k.toNat v → (.visit, v) ∈ c'.2 := by
  unfold finishOrder at h
  dsimp only at h
  split at h
  · exact absurd (congrArg Prod.fst h) (by simp)
  · rename_i hk
    split at h
    · exact absurd (congrArg Prod.fst h) (by simp)
    · rename_i s hsweep
      obtain ⟨hanswer, rfl⟩ := Prod.mk.inj h
      obtain rfl := Except.ok.inj hanswer
      have hvs : ∀ v ∈ vertices k.toNat, IsVertex k.toNat v := fun v hv => mem_vertices.mp hv
      have hrecorded := (Machine.Recorded.start ⟨g, o⟩ k.toNat c).sweep ho hvs
        (pairwise_lt_vertices k.toNat)
        (fun u hu hnot => absurd (mem_vertices.mpr hu) hnot) hsweep
      obtain ⟨-, hroots, -⟩ :=
        (Machine.Invariant.start ⟨g, o⟩ k.toNat (c, [])).sweep hvs hsweep
      refine ⟨Int.not_lt.mp hk, hrecorded.depthFirst, hrecorded.noted.exits_eq, fun v hv => ?_⟩
      exact not_not.mp fun hnew => hroots v (mem_vertices.mpr hv)
        ((hrecorded.noted.white_iff v hv).mpr hnew)

/-- **The record of a search obeys the laws of a depth-first search.** Whatever the
graph, the number of vertices, the strategy, the watch, the detection of cycles and
the two hooks: if the search succeeds, then its calls visit and exit each vertex
once, the intervals between are disjoint or nested, the vertices are exited in the
order that is returned, roots are the least unvisited vertices, and what is visited
in the interval of a vertex is what could be reached from it through unvisited
vertices when it began. -/
theorem recorded_calls_lawful {o : Options σ} {order : Array Int} {c' : σ} {calls : Calls}
    (hvisit : o.onVisit.isSome) (hexit : o.onExit.isSome)
    (h : finishOrder (some g) k o.recorded (c, []) = (.ok order, (c', calls))) :
    0 ≤ k ∧ calls.Lawful g k.toNat order.toList := by
  obtain ⟨hk, hcalls, hexits, hall⟩ :=
    depthFirst_of_finishOrder (Options.recorded_records hvisit hexit) h
  refine ⟨hk, ?_⟩
  rw [← hexits]
  exact hcalls.lawful hall

/-- Two cycles and a loop, searched by recursion for a client that counts visits, and a
second root whose only successor is finished already. -/
theorem recorded_calls_lawful_sample :
    let g := (Adjacency.ofList [(0, [1]), (1, [2]), (2, [0, 1, 2, 3]), (4, [3])]).successors
    let o : Options Nat :=
      { strategy := .recursive, onVisit := some (fun _ k => (none, k + 1)),
        onExit := some (fun _ k => (none, k)) }
    let calls : Calls :=
      [(.visit, 0), (.visit, 1), (.visit, 2), (.visit, 3), (.exit, 3), (.exit, 2), (.exit, 1),
        (.exit, 0), (.visit, 4), (.exit, 4)]
    finishOrder (some g) 5 o.recorded (0, []) = (.ok #[3, 2, 1, 0, 4], (5, calls)) ∧
      calls.Lawful g 5 [3, 2, 1, 0, 4] := by
  refine ⟨?run, (recorded_calls_lawful rfl rfl ?run).2⟩
  cbv

end TopologicalOrder
