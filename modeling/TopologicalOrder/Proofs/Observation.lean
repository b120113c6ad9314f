import TopologicalOrder.Proofs.Strategies

/-!
# What a client sees of a search

A client sees the answer of a search, its own state at the end, and the calls of
its hooks on the way. The calls are not part of an answer, so they are made
visible by a second client, which keeps a list beside the state of the first and
writes every call down (`Options.recorded`).

That the second client sees the same search is an instance of a general fact. A
client may keep more than another as long as it is the same client when the rest
is forgotten: it stops the search at the same moments and its hooks answer alike.
The search of the one is then the search of the other, forgotten part included
(`finishOrder_mapClient`). Writing calls down is a case of this
(`finishOrder_recorded`), and so is to choose another strategy, where nothing is
forgotten at all (`finishOrder_strategy`).

With the calls in view, the two strategies are compared in full
(`strategies_indistinguishable`).
-/

namespace TopologicalOrder

variable {σ τ : Type}

/-- What calling a hook does, if there is one, to the client's state. -/
def Hook.call (hook : Option (Hook σ)) (v : Int) (c : σ) : Option String × σ :=
  match hook with
  | none => (none, c)
  | some call => call v c

/-- A call is its reply with the state around the client's new state. -/
theorem Search.announce_eq (hook : Option (Hook σ)) (v : Int) (s : Search σ) :
    announce hook v s =
      ((Hook.call hook v s.client).1, { s with client := (Hook.call hook v s.client).2 }) := by
  cases hook <;> rfl

/-- **A client that keeps more**: seen through `φ`, a client of `o'` is one of `o`.
The strategies may differ. -/
structure Options.Refines (φ : τ → σ) (o' : Options τ) (o : Options σ) : Prop where
  /-- Both look for cycles or neither does. -/
  detectCycles : o.detectCycles = o'.detectCycles
  /-- Both stop at the same moments. -/
  watch : ∀ c, o.watch (φ c) = o'.watch c
  /-- Both answer alike to a discovery. -/
  onVisit : ∀ v c, Hook.call o.onVisit v (φ c) = Prod.map id φ (Hook.call o'.onVisit v c)
  /-- Both answer alike to the end of a vertex. -/
  onExit : ∀ v c, Hook.call o.onExit v (φ c) = Prod.map id φ (Hook.call o'.onExit v c)

/-! ## The search of a client that keeps more -/

/-- The same search for a client that keeps less. -/
def Search.mapClient (φ : τ → σ) (s : Search τ) : Search σ :=
  { colors := s.colors, finished := s.finished, client := φ s.client }

/-- The same machine for a client that keeps less. -/
def Machine.mapClient (φ : τ → σ) (m : Machine τ) : Machine σ :=
  { frames := m.frames, search := m.search.mapClient φ }

section MapClient

variable {φ : τ → σ} {o' : Options τ} {o : Options σ} (ho : o'.Refines φ o) (g : Successors)

theorem Search.announce_mapClient {hook : Option (Hook σ)} {hook' : Option (Hook τ)}
    (h : ∀ v c, Hook.call hook v (φ c) = Prod.map id φ (Hook.call hook' v c)) (v : Int)
    (s : Search τ) :
    announce hook v (s.mapClient φ) = Prod.map id (mapClient φ) (announce hook' v s) := by
  rw [announce_eq, announce_eq]
  show ((Hook.call hook v (φ s.client)).1, _) = _
  simp only [mapClient, h]
  rfl

include ho

theorem Search.discover_mapClient (v : Int) (s : Search τ) :
    discover ⟨g, o⟩ v (s.mapClient φ) = Prod.map id (mapClient φ) (discover ⟨g, o'⟩ v s) := by
  have hcall := announce_mapClient ho.onVisit v (s.paint v .gray)
  unfold discover
  rw [show o.watch (s.mapClient φ).client = o'.watch s.client from ho.watch s.client,
    show (s.mapClient φ).paint v .gray = (s.paint v .gray).mapClient φ from rfl, hcall]
  cases o'.watch s.client with
  | some cause => rfl
  | none =>
    dsimp only
    cases announce o'.onVisit v (s.paint v .gray) with
    | mk reply r => cases reply <;> rfl

theorem Search.finish_mapClient (v : Int) (s : Search τ) :
    finish ⟨g, o⟩ v (s.mapClient φ) = Prod.map id (mapClient φ) (finish ⟨g, o'⟩ v s) := by
  unfold finish
  dsimp only
  rw [announce_mapClient ho.onExit v s]
  cases announce o'.onExit v s with
  | mk reply r => cases reply <;> rfl

theorem Search.examine_mapClient (v u : Int) (s : Search τ) :
    examine ⟨g, o⟩ v u (s.mapClient φ) = examine ⟨g, o'⟩ v u s := by
  unfold examine
  dsimp only
  rw [ho.detectCycles]
  rfl

/-- **One step is the same step.** -/
theorem Machine.step_mapClient (m : Machine τ) :
    step ⟨g, o⟩ (m.mapClient φ) = Prod.map id (mapClient φ) (step ⟨g, o'⟩ m) := by
  obtain ⟨frames, s⟩ := m
  cases frames with
  | nil => rfl
  | cons f fs =>
    show step ⟨g, o⟩ ⟨f :: fs, s.mapClient φ⟩ = _
    unfold step
    dsimp only
    split
    · rw [Search.examine_mapClient ho]
      cases Search.examine ⟨g, o'⟩ f.vertex f.successors[f.next] s with
      | error e => rfl
      | ok descend =>
        cases descend with
        | false => rfl
        | true =>
          dsimp only
          rw [Search.discover_mapClient ho]
          cases Search.discover ⟨g, o'⟩ f.successors[f.next] s with
          | mk found r => cases found <;> rfl
    · rw [Search.finish_mapClient ho]
      cases Search.finish ⟨g, o'⟩ f.vertex s with
      | mk out r => cases out <;> rfl

theorem Machine.step_mapClient_of_eq {m m' : Machine τ} {out : Except SortError Unit}
    (h : step ⟨g, o'⟩ m = (out, m')) : step ⟨g, o⟩ (m.mapClient φ) = (out, m'.mapClient φ) := by
  rw [step_mapClient ho, h]
  rfl

/-- **The whole loop is the same loop.** -/
theorem Machine.run_mapClient (m : Machine τ) :
    run ⟨g, o⟩ (m.mapClient φ) = Prod.map id (Search.mapClient φ) (run ⟨g, o'⟩ m) := by
  induction m using run.induct ⟨g, o'⟩ with
  | case1 s =>
    show run ⟨g, o⟩ ⟨[], s.mapClient φ⟩ = _
    rw [run, run]
    rfl
  | case2 f fs s e m hstep =>
    have hstep' : step ⟨g, o⟩ ⟨f :: fs, s.mapClient φ⟩ = (.error e, m.mapClient φ) :=
      step_mapClient_of_eq ho g hstep
    show run ⟨g, o⟩ ⟨f :: fs, s.mapClient φ⟩ = _
    rw [run, hstep', run, hstep]
    rfl
  | case3 f fs s m hstep ih =>
    have hstep' : step ⟨g, o⟩ ⟨f :: fs, s.mapClient φ⟩ = (.ok (), m.mapClient φ) :=
      step_mapClient_of_eq ho g hstep
    show run ⟨g, o⟩ ⟨f :: fs, s.mapClient φ⟩ = _
    rw [run, hstep', run, hstep]
    exact ih

theorem Search.enter_mapClient (v : Int) (s : Search τ) :
    enter ⟨g, o⟩ v (s.mapClient φ) = Prod.map id (mapClient φ) (enter ⟨g, o'⟩ v s) := by
  rw [enter_eq_walk, enter_eq_walk]
  unfold walk
  rw [discover_mapClient ho]
  cases discover ⟨g, o'⟩ v s with
  | mk found r =>
    cases found with
    | error e => rfl
    | ok us => exact Machine.run_mapClient ho g ⟨[Frame.enter v us], r⟩

theorem Search.sweep_mapClient (vs : List Int) (s : Search τ) :
    sweep ⟨g, o⟩ vs (s.mapClient φ) = Prod.map id (mapClient φ) (sweep ⟨g, o'⟩ vs s) := by
  induction vs generalizing s with
  | nil => rfl
  | cons v vs ih =>
    simp only [sweep]
    rw [show (s.mapClient φ).color v = s.color v from rfl, enter_mapClient ho]
    cases s.color v with
    | white =>
      dsimp only
      cases enter ⟨g, o'⟩ v s with
      | mk out r =>
        cases out with
        | error e => rfl
        | ok => exact ih r
    | gray => exact ih s
    | black => exact ih s

omit g in
/-- **What a client keeps besides is invisible to the search**: forgetting it before
the search or after it comes to the same. -/
theorem finishOrder_mapClient (g : Option Successors) (n : Int) (c : τ) :
    finishOrder g n o (φ c) = Prod.map id φ (finishOrder g n o' c) := by
  cases g with
  | none => rfl
  | some g =>
    have hsweep := Search.sweep_mapClient ho g (vertices n.toNat) (Search.start n.toNat c)
    unfold finishOrder
    dsimp only
    split
    · rfl
    · rw [show Search.start n.toNat (φ c) = (Search.start n.toNat c).mapClient φ from rfl, hsweep]
      cases Search.sweep ⟨g, o'⟩ (vertices n.toNat) (Search.start n.toNat c) with
      | mk out r => cases out <;> rfl

omit g in
theorem topologicalSort_mapClient (g : Option Successors) (n : Int) (c : τ) :
    topologicalSort g n o (φ c) = Prod.map id φ (topologicalSort g n o' c) := by
  unfold topologicalSort
  rw [finishOrder_mapClient ho]
  cases finishOrder g n o' c with
  | mk answer c' => cases answer <;> rfl

end MapClient

/-! ## Choosing another strategy -/

theorem Options.strategy_refines (o : Options σ) (st : Strategy) :
    ({ o with strategy := st } : Options σ).Refines id o where
  detectCycles := rfl
  watch _ := rfl
  onVisit _ _ := rfl
  onExit _ _ := rfl

/-- **The strategy does not change what a search answers**, nor the state in which
it leaves its client. -/
theorem finishOrder_strategy (g : Option Successors) (n : Int) (o : Options σ) (st : Strategy)
    (c : σ) : finishOrder g n { o with strategy := st } c = finishOrder g n o c :=
  (finishOrder_mapClient (o.strategy_refines st) g n c).symm

theorem topologicalSort_strategy (g : Option Successors) (n : Int) (o : Options σ)
    (st : Strategy) (c : σ) :
    topologicalSort g n { o with strategy := st } c = topologicalSort g n o c :=
  (topologicalSort_mapClient (o.strategy_refines st) g n c).symm

/-! ## Writing the calls down -/

/-- The hook that does the same and then writes the call down. -/
def Hook.recorded (phase : Phase) (call : Hook σ) : Hook (σ × List (Phase × Int)) :=
  fun v c => ((call v c.1).1, ((call v c.1).2, c.2 ++ [(phase, v)]))

/-- **The client that writes down the calls of its hooks**, the latest one last,
whether they fail or not. -/
def Options.recorded (o : Options σ) : Options (σ × List (Phase × Int)) where
  strategy := o.strategy
  detectCycles := o.detectCycles
  watch := fun c => o.watch c.1
  onVisit := o.onVisit.map (Hook.recorded .visit)
  onExit := o.onExit.map (Hook.recorded .exit)

theorem Options.recorded_refines (o : Options σ) : o.recorded.Refines Prod.fst o where
  detectCycles := rfl
  watch _ := rfl
  onVisit v c := by
    show _ = Prod.map id Prod.fst (Hook.call (o.onVisit.map (Hook.recorded .visit)) v c)
    cases o.onVisit <;> rfl
  onExit v c := by
    show _ = Prod.map id Prod.fst (Hook.call (o.onExit.map (Hook.recorded .exit)) v c)
    cases o.onExit <;> rfl

/-- **Writing the calls down changes nothing else.** -/
theorem finishOrder_recorded (g : Option Successors) (n : Int) (o : Options σ) (c : σ)
    (calls : List (Phase × Int)) :
    finishOrder g n o c = Prod.map id Prod.fst (finishOrder g n o.recorded (c, calls)) :=
  finishOrder_mapClient o.recorded_refines g n (c, calls)

theorem topologicalSort_recorded (g : Option Successors) (n : Int) (o : Options σ) (c : σ)
    (calls : List (Phase × Int)) :
    topologicalSort g n o c = Prod.map id Prod.fst (topologicalSort g n o.recorded (c, calls)) :=
  topologicalSort_mapClient o.recorded_refines g n (c, calls)

/-! ## The strategies in view of the client -/

theorem Options.foldl_apply_strategy (o : Options σ) (l : List (Setting σ)) :
    l.foldl Options.apply { o with strategy := .recursive } =
      { l.foldl Options.apply o with strategy := .recursive } := by
  induction l generalizing o with
  | nil => rfl
  | cons x l ih =>
    have hx : ({ o with strategy := .recursive } : Options σ).apply x =
        { o.apply x with strategy := .recursive } := by
      cases x with
      | watch w => cases w <;> rfl
      | _ => rfl
    rw [List.foldl_cons, List.foldl_cons, hx, ih]

/-- To ask for recursion anywhere among the settings is to set the strategy. -/
theorem Options.ofSettings_recursive (l₁ l₂ : List (Setting σ)) :
    ofSettings (l₁ ++ .recursive :: l₂) =
      { ofSettings (l₁ ++ l₂) with strategy := .recursive } := by
  unfold ofSettings
  rw [List.foldl_append, List.foldl_append, List.foldl_cons]
  exact foldl_apply_strategy _ l₂

/-- **No client can tell the strategies apart.** Whatever the graph, the number of
vertices, the other settings and the client, asking for recursion leaves the
answer as it was – the order, or the failure with all it names –, the state in
which the client ends, and the calls of its hooks one by one. The calls are
those of the search itself, since the search that writes them down is the same
in everything else. -/
theorem strategies_indistinguishable (g : Option Successors) (n : Int)
    (l₁ l₂ : List (Setting σ)) (c : σ) :
    let stack := Options.ofSettings (l₁ ++ l₂)
    let recursive := Options.ofSettings (l₁ ++ .recursive :: l₂)
    (finishOrder g n recursive c = finishOrder g n stack c ∧
        topologicalSort g n recursive c = topologicalSort g n stack c) ∧
      (finishOrder g n recursive.recorded (c, []) = finishOrder g n stack.recorded (c, []) ∧
        topologicalSort g n recursive.recorded (c, []) =
          topologicalSort g n stack.recorded (c, [])) ∧
      finishOrder g n stack c =
          Prod.map id Prod.fst (finishOrder g n stack.recorded (c, [])) ∧
        topologicalSort g n stack c =
          Prod.map id Prod.fst (topologicalSort g n stack.recorded (c, [])) := by
  intro stack recursive
  have hset : recursive = { stack with strategy := .recursive } :=
    Options.ofSettings_recursive l₁ l₂
  have hrecorded : recursive.recorded = { stack.recorded with strategy := .recursive } := by
    rw [hset]
    rfl
  refine ⟨⟨?_, ?_⟩, ⟨?_, ?_⟩, finishOrder_recorded g n stack c [],
    topologicalSort_recorded g n stack c []⟩
  · rw [hset, finishOrder_strategy]
  · rw [hset, topologicalSort_strategy]
  · rw [hrecorded, finishOrder_strategy]
  · rw [hrecorded, topologicalSort_strategy]

end TopologicalOrder
