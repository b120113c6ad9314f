import TopologicalOrder.Proofs.Detection

/-!
# A search as its client is told of it

What a search does is decided by the graph. Its client is told of it, call by call, and
can only stop it. So a search for any client is the search for the client that lets
everything happen and writes it down (`scribe`), told to the other client one call after
the other, up to the first to which that client objects (`Options.replay`). If it objects
to none, the answer is that of the graph; if it does, the answer is its objection
(`finishOrder_eq_attend`, `topologicalSort_eq_attend`).

Whatever is to be said of two clients of one search, which may fail, stop the search or do
neither, is then a statement about one list of calls.

The calls that the scribe has written down tell, at each moment of its search, whether the
other client has objected already. As long as it has not, both searches are in the same
state but for the client; once it has, the other search is over, and what the scribe
still writes down comes after the objection (`Told`).
-/

namespace TopologicalOrder

variable {σ τ : Type} {o : Options σ} {c d : σ}

/-! ## Telling a client of calls -/

/-- **The client that lets everything happen and writes it down.** -/
def scribe (detect : Bool) : Options Calls where
  detectCycles := detect
  onVisit := some fun v calls => (none, calls ++ [(.visit, v)])
  onExit := some fun v calls => (none, calls ++ [(.exit, v)])

namespace Options

/-- The objection that a hook makes by its reply. -/
def objection (phase : Phase) (v : Int) : Option String × σ → Option SortError × σ :=
  Prod.map (Option.map (SortError.hookFailed phase v)) id

/-- **What a client makes of one call**: its objection, if it has one, and the state in
which it is left. Before a visit the watch is asked. -/
def hear (o : Options σ) : Phase × Int → σ → Option SortError × σ
  | (.visit, v), c =>
    match o.watch c with
    | some cause => (some (.interrupted cause), c)
    | none => objection .visit v (Hook.call o.onVisit v c)
  | (.exit, v), c => objection .exit v (Hook.call o.onExit v c)

theorem hear_visit {v : Int} (h : o.watch c = none) :
    o.hear (.visit, v) c = objection .visit v (Hook.call o.onVisit v c) := by
  rw [hear, h]

theorem hear_interrupted {v : Int} {cause : Interrupt} (h : o.watch c = some cause) :
    o.hear (.visit, v) c = (some (.interrupted cause), c) := by
  rw [hear, h]

/-- **Tells a client of calls one after the other**, up to the first to which it
objects. -/
def replay (o : Options σ) : Calls → σ → Option SortError × σ
  | [], c => (none, c)
  | e :: calls, c =>
    match o.hear e c with
    | (some err, c) => (some err, c)
    | (none, c) => o.replay calls c

/-- What a client objects to ends what it is told, and what it does not object to leads
on. -/
theorem replay_append (o : Options σ) (calls l : Calls) (c : σ) :
    o.replay (calls ++ l) c =
      match o.replay calls c with
      | (some err, c) => (some err, c)
      | (none, c) => o.replay l c := by
  induction calls generalizing c with
  | nil => rfl
  | cons e calls ih =>
    rw [List.cons_append, replay, replay]
    cases o.hear e c with
    | mk reply d =>
      cases reply with
      | some err => rfl
      | none => exact ih d

theorem replay_singleton (o : Options σ) (e : Phase × Int) (c : σ) :
    o.replay [e] c = o.hear e c := by
  rw [replay]
  cases o.hear e c with
  | mk reply d => cases reply <;> rfl

/-- One more call, for a client that has not objected so far. -/
theorem replay_concat {calls : Calls} (h : o.replay calls c = (none, d)) (e : Phase × Int) :
    o.replay (calls ++ [e]) c = o.hear e d := by
  rw [replay_append, h]
  exact o.replay_singleton e d

/-- An objection stands, whatever calls come after it. -/
theorem replay_of_prefix {calls l : Calls} {err : SortError} (hl : calls <+: l)
    (h : o.replay calls c = (some err, d)) : o.replay l c = (some err, d) := by
  obtain ⟨rest, rfl⟩ := hl
  rw [replay_append, h]

/-- **The answer of a search that a client is told of**: that of the search, unless the
client objects. -/
def attend {α : Type} (o : Options σ) (x : Except SortError α × Calls) (c : σ) :
    Except SortError α × σ :=
  match o.replay x.2 c with
  | (some err, d) => (.error err, d)
  | (none, d) => (x.1, d)

theorem attend_of_objection {α : Type} {x : Except SortError α × Calls} {err : SortError}
    (h : o.replay x.2 c = (some err, d)) : o.attend x c = (.error err, d) := by
  rw [attend, h]

theorem attend_snd {α : Type} (o : Options σ) (x : Except SortError α × Calls) (c : σ) :
    (o.attend x c).2 = (o.replay x.2 c).2 := by
  unfold attend
  cases o.replay x.2 c with
  | mk reply d => cases reply <;> rfl

end Options

theorem scribe_advances (detect : Bool) : (scribe detect).Advances fun c d => c <+: d where
  refl _ := List.prefix_rfl
  trans := List.IsPrefix.trans
  onVisit _ _ := List.prefix_append _ _
  onExit _ _ := List.prefix_append _ _

/-! ## A client beside the scribe -/

/-- **`y` is what the client's reply makes of a search**: the objection with the state in
which the client is left, or what the search is without one. -/
inductive Told {α S : Type} (client : S → σ) (reply : Option SortError × σ)
    (same : σ → Except SortError α × S) (y : Except SortError α × S) : Prop
  /-- The client objects, and that is the end. -/
  | objected (err : SortError) (r : S) (hreply : reply = (some err, client r))
      (hy : y = (.error err, r))
  /-- The client does not object, and the search is the same. -/
  | agreed (d : σ) (hreply : reply = (none, d)) (hy : y = same d)

namespace Search

variable (o) (g : Successors)

/-- **A discovery tells the client of a visit.** -/
theorem discover_told (v : Int) (s : Search τ) (d : σ) :
    Told Search.client (o.hear (.visit, v) d)
      (fun d => (.ok (g v), (s.paint v .gray).mapClient fun _ => d))
      (discover ⟨g, o⟩ v (s.mapClient fun _ => d)) := by
  unfold discover
  rw [announce_eq, show (s.mapClient fun _ => d).client = d from rfl]
  dsimp only
  cases hwatch : o.watch d with
  | some cause => exact .objected _ _ (Options.hear_interrupted hwatch) rfl
  | none =>
    rw [Options.hear_visit hwatch,
      show ((s.mapClient fun _ => d).paint v .gray).client = d from rfl]
    cases Hook.call o.onVisit v d with
    | mk reply d =>
      cases reply with
      | some reason => exact .objected _ _ rfl rfl
      | none => exact .agreed _ rfl rfl

/-- **A finish tells the client of an exit.** -/
theorem finish_told (v : Int) (s : Search τ) (d : σ) :
    Told Search.client (o.hear (.exit, v) d)
      (fun d => (.ok (), (s.retire v).mapClient fun _ => d))
      (finish ⟨g, o⟩ v (s.mapClient fun _ => d)) := by
  unfold finish Options.hear
  rw [announce_eq]
  dsimp only
  rw [show (s.mapClient fun _ => d).client = d from rfl]
  cases Hook.call o.onExit v d with
  | mk reply d =>
    cases reply with
    | some reason => exact .objected _ _ rfl rfl
    | none => exact .agreed _ rfl rfl

end Search

section

variable (g : Successors)

/-- **One step**, for a client that has not objected so far. -/
theorem Machine.step_told (m : Machine Calls) (h : o.replay m.search.client c = (none, d)) :
    Told (fun m => m.search.client)
      (o.replay (step ⟨g, scribe o.detectCycles⟩ m).2.search.client c)
      (fun d => Prod.map id (mapClient fun _ => d) (step ⟨g, scribe o.detectCycles⟩ m))
      (step ⟨g, o⟩ (m.mapClient fun _ => d)) := by
  obtain ⟨frames, s⟩ := m
  cases frames with
  | nil => exact .agreed d h rfl
  | cons f fs =>
    show Told _ _ _ (step ⟨g, o⟩ ⟨f :: fs, s.mapClient fun _ => d⟩)
    unfold step
    dsimp only
    split
    · rw [show Search.examine ⟨g, o⟩ f.vertex f.successors[f.next] (s.mapClient fun _ => d) =
        Search.examine ⟨g, scribe o.detectCycles⟩ f.vertex f.successors[f.next] s from rfl]
      cases Search.examine ⟨g, scribe o.detectCycles⟩ f.vertex f.successors[f.next] s with
      | error e => exact .agreed d h rfl
      | ok descend =>
        cases descend with
        | false => exact .agreed d h rfl
        | true =>
          have hd := Search.discover_told o g f.successors[f.next] s d
          rw [← Options.replay_concat h] at hd
          dsimp only
          rcases hd with ⟨err, r, hreply, hy⟩ | ⟨d', hreply, hy⟩
          · rw [hy]
            exact .objected err ⟨_, r⟩ hreply rfl
          · rw [hy]
            exact .agreed d' hreply rfl
    · have hf := Search.finish_told o g f.vertex s d
      rw [← Options.replay_concat h] at hf
      rcases hf with ⟨err, r, hreply, hy⟩ | ⟨d', hreply, hy⟩
      · rw [hy]
        exact .objected err ⟨_, r⟩ hreply rfl
      · rw [hy]
        exact .agreed d' hreply rfl

/-- **The whole loop**, for a client that has not objected so far. -/
theorem Machine.run_told (m : Machine Calls) (h : o.replay m.search.client c = (none, d)) :
    Told Search.client (o.replay (run ⟨g, scribe o.detectCycles⟩ m).2.client c)
      (fun d => Prod.map id (Search.mapClient fun _ => d) (run ⟨g, scribe o.detectCycles⟩ m))
      (run ⟨g, o⟩ (m.mapClient fun _ => d)) := by
  induction m using run.induct ⟨g, scribe o.detectCycles⟩ generalizing d with
  | case1 s =>
    show Told _ _ _ (run ⟨g, o⟩ ⟨[], s.mapClient fun _ => d⟩)
    rw [run, run]
    exact .agreed d h rfl
  | case2 f fs s e m hstep =>
    have hs := step_told g _ h
    rw [hstep] at hs
    show Told _ _ _ (run ⟨g, o⟩ ⟨f :: fs, s.mapClient fun _ => d⟩)
    rw [run, hstep, run.eq_def ⟨g, o⟩]
    dsimp only
    rcases hs with ⟨err, r, hreply, hy⟩ | ⟨d', hreply, hy⟩
    · rw [show step ⟨g, o⟩ ⟨f :: fs, s.mapClient fun _ => d⟩ = (.error err, r) from hy]
      exact .objected err r.search hreply rfl
    · rw [show step ⟨g, o⟩ ⟨f :: fs, s.mapClient fun _ => d⟩ =
        (.error e, m.mapClient fun _ => d') from hy]
      exact .agreed d' hreply rfl
  | case3 f fs s m hstep ih =>
    have hs := step_told g _ h
    rw [hstep] at hs
    show Told _ _ _ (run ⟨g, o⟩ ⟨f :: fs, s.mapClient fun _ => d⟩)
    rw [run, hstep, run.eq_def ⟨g, o⟩]
    dsimp only
    rcases hs with ⟨err, r, hreply, hy⟩ | ⟨d', hreply, hy⟩
    · -- the scribe writes on, but the objection has been made
      have hrest := run_advances (t := ⟨g, scribe o.detectCycles⟩) (scribe_advances _) m
      rw [show step ⟨g, o⟩ ⟨f :: fs, s.mapClient fun _ => d⟩ = (.error err, r) from hy]
      exact .objected err r.search (Options.replay_of_prefix hrest hreply) rfl
    · rw [show step ⟨g, o⟩ ⟨f :: fs, s.mapClient fun _ => d⟩ =
        (.ok (), m.mapClient fun _ => d') from hy]
      exact ih hreply

theorem Search.enter_told (v : Int) (s : Search Calls) (h : o.replay s.client c = (none, d)) :
    Told Search.client (o.replay (enter ⟨g, scribe o.detectCycles⟩ v s).2.client c)
      (fun d => Prod.map id (mapClient fun _ => d) (enter ⟨g, scribe o.detectCycles⟩ v s))
      (enter ⟨g, o⟩ v (s.mapClient fun _ => d)) := by
  have hd := discover_told o g v s d
  rw [← Options.replay_concat h] at hd
  have hscribe : discover ⟨g, scribe o.detectCycles⟩ v s =
      (.ok (g v), { s.paint v .gray with client := s.client ++ [(.visit, v)] }) := rfl
  rw [enter_eq_walk, enter_eq_walk, walk, walk, hscribe]
  dsimp only
  rcases hd with ⟨err, r, hreply, hy⟩ | ⟨d', hreply, hy⟩
  · have hrest := Machine.run_advances (t := ⟨g, scribe o.detectCycles⟩) (scribe_advances _)
      ⟨[Frame.enter v (g v)], { s.paint v .gray with client := s.client ++ [(.visit, v)] }⟩
    rw [hy]
    exact .objected err r (Options.replay_of_prefix hrest hreply) rfl
  · rw [hy]
    exact Machine.run_told g ⟨[Frame.enter v (g v)], _⟩ hreply

/-- **All roots**, for a client that has not objected so far. -/
theorem Search.sweep_told (vs : List Int) (s : Search Calls)
    (h : o.replay s.client c = (none, d)) :
    Told Search.client (o.replay (sweep ⟨g, scribe o.detectCycles⟩ vs s).2.client c)
      (fun d => Prod.map id (mapClient fun _ => d) (sweep ⟨g, scribe o.detectCycles⟩ vs s))
      (sweep ⟨g, o⟩ vs (s.mapClient fun _ => d)) := by
  induction vs generalizing s d with
  | nil =>
    rw [sweep, sweep]
    exact .agreed d h rfl
  | cons v vs ih =>
    have he := enter_told g v s h
    simp only [sweep]
    rw [show (s.mapClient fun _ => d).color v = s.color v from rfl]
    cases s.color v with
    | gray => exact ih s h
    | black => exact ih s h
    | white =>
      dsimp only
      generalize enter ⟨g, scribe o.detectCycles⟩ v s = x at he ⊢
      obtain ⟨answer, r⟩ := x
      cases answer with
      | error e =>
        rcases he with ⟨err, q, hreply, hy⟩ | ⟨d', hreply, hy⟩
        · rw [hy]
          exact .objected err q hreply rfl
        · rw [hy]
          exact .agreed d' hreply rfl
      | ok =>
        rcases he with ⟨err, q, hreply, hy⟩ | ⟨d', hreply, hy⟩
        · have hrest := sweep_advances (t := ⟨g, scribe o.detectCycles⟩) (scribe_advances _) vs r
          rw [hy]
          exact .objected err q (Options.replay_of_prefix hrest hreply) rfl
        · rw [hy]
          exact ih r hreply

end

/-! ## The whole search -/

/-- **A search is what the graph makes of it, told to its client.** -/
theorem finishOrder_eq_attend (g : Option Successors) (n : Int) (o : Options σ) (c : σ) :
    finishOrder g n o c = o.attend (finishOrder g n (scribe o.detectCycles) []) c := by
  cases g with
  | none => rfl
  | some g =>
    have hs := Search.sweep_told g (vertices n.toNat) (Search.start n.toNat [])
      (show o.replay [] c = (none, c) from rfl)
    unfold finishOrder Options.attend
    dsimp only
    split
    · rfl
    · rw [show Search.start n.toNat c = (Search.start n.toNat []).mapClient fun _ => c from rfl]
      obtain ⟨⟨answer, r⟩, hx⟩ : ∃ x, Search.sweep ⟨g, scribe o.detectCycles⟩ (vertices n.toNat)
        (Search.start n.toNat []) = x := ⟨_, rfl⟩
      rw [hx] at hs ⊢
      rcases hs with ⟨err, q, hreply, hy⟩ | ⟨d', hreply, hy⟩
      · rw [hy]
        cases answer <;> (dsimp only at hreply ⊢; rw [hreply])
      · rw [hy]
        cases answer <;> (dsimp only at hreply ⊢; rw [hreply]; rfl)

theorem topologicalSort_eq_attend (g : Option Successors) (n : Int) (o : Options σ) (c : σ) :
    topologicalSort g n o c = o.attend (topologicalSort g n (scribe o.detectCycles) []) c := by
  unfold topologicalSort
  rw [finishOrder_eq_attend]
  unfold Options.attend
  obtain ⟨answer, calls⟩ := finishOrder g n (scribe o.detectCycles) []
  cases answer with
  | error e =>
    dsimp only
    cases o.replay calls c with
    | mk reply d => cases reply <;> rfl
  | ok order =>
    dsimp only
    cases o.replay calls c with
    | mk reply d => cases reply <;> rfl

end TopologicalOrder
