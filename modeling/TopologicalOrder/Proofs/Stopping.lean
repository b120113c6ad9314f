import Mathlib
import TopologicalOrder.Search.Journal
import TopologicalOrder.Proofs.Replay

/-!
# Clients that stop a search

A client can stop a search in two ways. One of its hooks fails, and the search is over
with that call (`failing_hook_aborts`). Or it raises its flag, and its watch stops the
search when it is asked the next time, which is before the next visit. Until then
vertices are still exited, and the search can still come to its end or fail for another
reason (`cancellation_noticed_at_next_visit`).

Both are said by comparing two clients that write down their calls: one that stops the
search at chosen calls, and one that does not. The two are told of the same calls, so a
search that is stopped has seen a beginning of what the other one has seen. Which
beginning it is depends on the list of calls alone: as long as the watch does not stop
the search, the calls that are heard go up to the first on which a hook fails
(`Calls.heard`, `Options.replay_scripted`).
-/

namespace TopologicalOrder

variable {st : Strategy} {detect : Bool} {w : Watch Journal} {script : Phase → Script}
  {calls : Calls} {e : Phase × Int} {j : Journal}

/-! ## Recording clients -/

/-- **A client with two recording hooks**, each with its own script. -/
def Options.scripted (st : Strategy) (detect : Bool) (w : Watch Journal)
    (script : Phase → Script) : Options Journal where
  strategy := st
  detectCycles := detect
  watch := w
  onVisit := some ((script .visit).hook .visit)
  onExit := some ((script .exit).hook .exit)

/-- The call that an event records. -/
def Event.call (e : Event) : Phase × Int := (e.phase, e.vertex)

/-- The event that records a call. -/
def Script.event (script : Phase → Script) (e : Phase × Int) : Event :=
  { phase := e.1, tag := (script e.1).tag, vertex := e.2 }

/-- Why the hook fails on a call, if it does. -/
def Script.fault (script : Phase → Script) (e : Phase × Int) : Option String :=
  (script e.1).fails e.2

/-- The journal after some more calls. -/
def Journal.extend (script : Phase → Script) (j : Journal) (calls : Calls) : Journal where
  events := j.events ++ (calls.map (Script.event script)).toArray
  canceled := j.canceled || calls.any fun e => (script e.1).cancels e.2

@[simp] theorem Journal.extend_nil (script : Phase → Script) (j : Journal) :
    j.extend script [] = j := by
  simp [extend]

theorem Journal.extend_append (script : Phase → Script) (j : Journal) (calls l : Calls) :
    j.extend script (calls ++ l) = (j.extend script calls).extend script l := by
  simp [extend, Bool.or_assoc]

theorem Journal.extend_cons (script : Phase → Script) (j : Journal) (e : Phase × Int)
    (calls : Calls) : j.extend script (e :: calls) = (j.extend script [e]).extend script calls :=
  extend_append script j [e] calls

/-- The events of an empty journal after some calls. -/
theorem Journal.toList_events_extend (script : Phase → Script) (calls : Calls) (b : Bool) :
    ((⟨#[], b⟩ : Journal).extend script calls).events.toList = calls.map (Script.event script) := by
  simp [extend]

/-- A call to which the watch does not object is recorded, and then the hook may fail. -/
theorem Options.hear_scripted (hfree : e.1 = .visit → w j = none) :
    (scripted st detect w script).hear e j =
      ((Script.fault script e).map (.hookFailed e.1 e.2), j.extend script [e]) := by
  obtain ⟨phase, v⟩ := e
  have hjournal : ((script phase).hook phase v j).2 = j.extend script [(phase, v)] := by
    simp [Script.hook, Journal.extend, Script.event]
  cases phase with
  | visit =>
    have hwatch : (scripted st detect w script).watch j = none := hfree rfl
    rw [hear_visit hwatch]
    exact Prod.ext rfl hjournal
  | exit => exact Prod.ext rfl hjournal

/-! ## Up to the first failure -/

/-- The calls up to the first on which a hook fails, that one included. -/
def Calls.heard (fault : Phase × Int → Option String) : Calls → Calls
  | [] => []
  | e :: calls =>
    match fault e with
    | some _ => [e]
    | none => e :: heard fault calls

/-- The failure of the hook on that call. -/
def Calls.failure (fault : Phase × Int → Option String) (calls : Calls) : Option SortError :=
  calls.findSome? fun e => (fault e).map (.hookFailed e.1 e.2)

namespace Calls

variable {fault : Phase × Int → Option String}

theorem heard_prefix (fault : Phase × Int → Option String) (calls : Calls) :
    calls.heard fault <+: calls := by
  induction calls with
  | nil => exact List.prefix_rfl
  | cons e calls ih =>
    rw [heard]
    split
    · exact ⟨calls, rfl⟩
    · exact (List.prefix_cons_inj e).mpr ih

theorem heard_of_forall (h : ∀ e ∈ calls, fault e = none) : calls.heard fault = calls := by
  induction calls with
  | nil => rfl
  | cons e calls ih =>
    obtain ⟨he, hcalls⟩ := List.forall_mem_cons.mp h
    rw [heard, he]
    exact congrArg (e :: ·) (ih hcalls)

theorem failure_of_forall (h : ∀ e ∈ calls, fault e = none) : calls.failure fault = none := by
  refine List.findSome?_eq_none_iff.mpr fun e he => ?_
  rw [h e he, Option.map_none]

/-- **The first call on which a hook fails is the last to be heard.** -/
theorem heard_append {before : Calls} {reason : String} (hbefore : ∀ d ∈ before, fault d = none)
    (he : fault e = some reason) (after : Calls) :
    heard fault (before ++ e :: after) = before ++ [e] ∧
      failure fault (before ++ e :: after) = some (.hookFailed e.1 e.2 reason) := by
  constructor
  · induction before with
    | nil => rw [List.nil_append, heard, he, List.nil_append]
    | cons d before ih =>
      obtain ⟨hd, hbefore⟩ := List.forall_mem_cons.mp hbefore
      rw [List.cons_append, heard, hd]
      exact congrArg (d :: ·) (ih hbefore)
  · have hsilent : before.failure fault = none := failure_of_forall hbefore
    unfold failure at hsilent ⊢
    rw [List.findSome?_append, hsilent, List.findSome?_cons, he]
    rfl

/-- No hook fails on a call that is not the last to be heard. -/
theorem fault_of_heard {before after : Calls} (h : calls.heard fault = before ++ e :: after) :
    ∀ d ∈ before, fault d = none := by
  induction calls generalizing before with
  | nil => exact absurd h (by simp [heard])
  | cons first calls ih =>
    cases before with
    | nil => exact List.forall_mem_nil _
    | cons d before =>
      rw [heard] at h
      split at h
      · exact absurd h (by simp)
      · rename_i hfirst
        obtain ⟨rfl, hrest⟩ := List.cons.inj h
        exact List.forall_mem_cons.mpr ⟨hfirst, ih hrest⟩

end Calls

/-- **What a recording client hears if its watch does not stop the search**: the calls up
to the first on which a hook fails, and that failure is its objection. -/
theorem Options.replay_scripted
    (hfree : ∀ (before : Calls) (v : Int) (after : Calls),
      calls.heard (Script.fault script) = before ++ (.visit, v) :: after →
        w (j.extend script before) = none) :
    (scripted st detect w script).replay calls j =
      (calls.failure (Script.fault script),
        j.extend script (calls.heard (Script.fault script))) := by
  induction calls generalizing j with
  | nil =>
    rw [replay, Calls.heard, Journal.extend_nil]
    rfl
  | cons e calls ih =>
    rw [Calls.heard] at hfree ⊢
    have hfirst : e.1 = .visit → w j = none := by
      intro hvisit
      obtain ⟨phase, v⟩ := e
      obtain rfl : phase = .visit := hvisit
      have hnone := hfree [] v
      rw [Journal.extend_nil] at hnone
      split at hnone
      · exact hnone [] rfl
      · exact hnone _ rfl
    unfold Calls.failure
    rw [replay, hear_scripted hfirst, List.findSome?_cons]
    cases hfault : Script.fault script e with
    | some reason => rfl
    | none =>
      rw [hfault] at hfree
      have hrest := ih fun before v after hsplit => by
        have hnone := hfree (e :: before) v after (congrArg (e :: ·) hsplit)
        rw [Journal.extend_cons] at hnone
        exact hnone
      exact hrest.trans (Prod.ext rfl (Journal.extend_cons script j e _).symm)

/-! ## Hooks that fail -/

/-- **A search that a hook ends, beside one that no hook ends.** If a hook fails on one of
the calls of the second search, the first ends with the first such call and reports
the hook, the vertex and the reason. Otherwise the two are the same. -/
structure AbortedByHook (script : Phase → Script)
    (failing plain : Except SortError (Array Int) × Journal) : Prop where
  /-- The first call on which a hook fails is the last one. -/
  aborts : ∀ (before : List Event) (e : Event) (after : List Event) (reason : String),
    plain.2.events.toList = before ++ e :: after →
    (∀ d ∈ before, Script.fault script d.call = none) →
    Script.fault script e.call = some reason →
      failing.1 = .error (.hookFailed e.phase e.vertex reason) ∧
        failing.2.events.toList = before ++ [e]
  /-- Without such a call nothing is different. -/
  agrees : (∀ e ∈ plain.2.events.toList, Script.fault script e.call = none) → failing = plain

/-- The same scripts without failures. -/
def Script.unfailing (script : Phase → Script) (phase : Phase) : Script :=
  { script phase with fails := fun _ => none }

theorem Options.attend_aborted (st : Strategy) (detect : Bool) (script : Phase → Script)
    (x : Except SortError (Array Int) × Calls) :
    AbortedByHook script
      ((scripted st detect (fun _ => none) script).attend x {})
      ((scripted st detect (fun _ => none) (Script.unfailing script)).attend x {}) := by
  obtain ⟨answer, calls⟩ := x
  have hfailing : (scripted st detect (fun _ => none) script).replay calls {} = _ :=
    replay_scripted fun _ _ _ _ => rfl
  have hplain : (scripted st detect (fun _ => none) (Script.unfailing script)).replay calls {} =
      (none, ({} : Journal).extend script calls) := by
    have hnone : ∀ e ∈ calls, Script.fault (Script.unfailing script) e = none := fun _ _ => rfl
    rw [replay_scripted fun _ _ _ _ => rfl, Calls.heard_of_forall hnone,
      Calls.failure_of_forall hnone]
    rfl
  unfold attend
  rw [hplain, hfailing]
  refine ⟨fun before e after reason hsplit hbefore he => ?_, fun hnone => ?_⟩
  · rw [Journal.toList_events_extend] at hsplit
    obtain ⟨before, rest, rfl, rfl, hrest⟩ := List.map_eq_append_iff.mp hsplit
    obtain ⟨e, after, rfl, rfl, rfl⟩ := List.map_eq_cons_iff.mp hrest
    have hfirst : ∀ d ∈ before, Script.fault script d = none := fun d hd =>
      hbefore (Script.event script d) (List.mem_map_of_mem hd)
    have hlast : Script.fault script e = some reason := he
    obtain ⟨hheard, hfailure⟩ := Calls.heard_append hfirst hlast after
    rw [hheard, hfailure]
    refine ⟨rfl, ?_⟩
    rw [Journal.toList_events_extend, List.map_append, List.map_singleton]
  · have hcalls : ∀ e ∈ calls, Script.fault script e = none := fun e he => by
      refine hnone (Script.event script e) ?_
      rw [Journal.toList_events_extend]
      exact List.mem_map_of_mem he
    rw [Calls.heard_of_forall hcalls, Calls.failure_of_forall hcalls]

/-- **A failing hook ends a search at once and changes nothing before.** Whatever the
graph, the strategy, the detection of cycles and the calls on which the hooks fail:
compared with the search whose hooks do the same but never fail, the calls are the same
up to the first on which a hook fails. That call is the last one, and its hook, its vertex
and the reason are what is reported. If there is no such call, the searches are the same. -/
theorem failing_hook_aborts (g : Option Successors) (n : Int) (st : Strategy) (detect : Bool)
    (script : Phase → Script) :
    let failing := Options.scripted st detect (fun _ => none) script
    let plain := Options.scripted st detect (fun _ => none) (Script.unfailing script)
    AbortedByHook script (finishOrder g n failing {}) (finishOrder g n plain {}) ∧
      AbortedByHook script (topologicalSort g n failing {}) (topologicalSort g n plain {}) := by
  intro failing plain
  rw [finishOrder_eq_attend g n failing, finishOrder_eq_attend g n plain,
    topologicalSort_eq_attend g n failing, topologicalSort_eq_attend g n plain]
  exact ⟨Options.attend_aborted st detect script _, Options.attend_aborted st detect script _⟩

/-- The hook fails when `2` is exited, the search being done by recursion: `1` and `0` are not
exited, and the cycle that `3` would close is not met. -/
theorem failing_hook_aborts_sample :
    let g := (Adjacency.ofList [(0, [1, 3]), (1, [2]), (3, [0])]).successors
    let script : Phase → Script := fun phase =>
      { tag := "hook", fails := fun v => if phase = .exit ∧ v = 2 then some "full" else none }
    let search := finishOrder (some g) 4
      (Options.scripted .recursive true (fun _ => none) script) {}
    let heard : Calls := [(.visit, 0), (.visit, 1), (.visit, 2), (.exit, 2)]
    search.1 = .error (.hookFailed .exit 2 "full") ∧
      search.2.events.toList = heard.map (Script.event script) := by
  intro g script search heard
  let before : Calls := [(.visit, 0), (.visit, 1), (.visit, 2)]
  let after : Calls := [(.exit, 1), (.visit, 3)]
  refine (failing_hook_aborts (some g) 4 .recursive true script).1.aborts
    (before.map (Script.event script)) (Script.event script (.exit, 2))
    (after.map (Script.event script)) "full" ?_ (by decide) rfl
  cbv

/-! ## Hooks that ask the search to stop -/

/-- **A search that a hook asks to stop at a chosen call, beside one that no hook asks to
stop.** If the second search visits a vertex after the chosen call, the first is
interrupted when the next visit is due: between the two there are only exits, and they
take place. Otherwise the two come to the same with the same calls. -/
structure NoticedAtNextVisit (chosen : Phase × Int)
    (canceled plain : Except SortError (Array Int) × Journal) : Prop where
  /-- The next visit after the chosen call does not take place. -/
  noticed : ∀ (before : List Event) (e : Event) (exits : List Event) (next : Event)
    (rest : List Event),
    plain.2.events.toList = before ++ e :: (exits ++ next :: rest) →
    (∀ d ∈ before, d.call ≠ chosen) → e.call = chosen →
    (∀ d ∈ exits, d.phase = .exit) → next.phase = .visit →
      canceled.1 = .error (.interrupted .canceled) ∧
        canceled.2.events.toList = before ++ e :: exits
  /-- Without such a visit nothing is different. -/
  unnoticed : (∀ (before : List Event) (e : Event) (after : List Event),
    plain.2.events.toList = before ++ e :: after → e.call = chosen →
      ∀ d ∈ after, d.phase = .exit) →
      canceled.1 = plain.1 ∧ canceled.2.events = plain.2.events

/-- The same scripts, with the calls on which they ask the search to stop. -/
def Script.canceling (cancel : Phase × Int → Bool) (script : Phase → Script) (phase : Phase) :
    Script :=
  { script phase with cancels := fun v => cancel (phase, v) }

section

variable {cancel : Phase × Int → Bool} {chosen : Phase × Int}

theorem Journal.watch_extend (cancel : Phase × Int → Bool) (script : Phase → Script)
    (calls : Calls) :
    Journal.watch (({} : Journal).extend (Script.canceling cancel script) calls) =
      if calls.any cancel then some .canceled else none := rfl

theorem Journal.watch_extend_eq_none (h : ∀ e ∈ calls, cancel e = false) :
    Journal.watch (({} : Journal).extend (Script.canceling cancel script) calls) = none := by
  rw [watch_extend, List.any_eq_false.mpr fun e he => Bool.not_eq_true _ ▸ h e he]
  rfl

/-- **A search that is asked to stop hears of the calls up to the next visit.** -/
theorem Options.replay_interrupted {before exits rest : Calls} {v : Int}
    (hheard : calls.heard (Script.fault script) =
      before ++ chosen :: exits ++ (.visit, v) :: rest)
    (hbefore : chosen ∉ before) (hexits : ∀ d ∈ exits, d.1 = .exit) :
    (scripted st detect Journal.watch (Script.canceling (· = chosen) script)).replay calls {} =
      (some (.interrupted .canceled), ({} : Journal).extend
        (Script.canceling (· = chosen) script) (before ++ chosen :: exits)) := by
  have hnone : ∀ d ∈ before ++ chosen :: exits,
      Script.fault (Script.canceling (· = chosen) script) d = none := Calls.fault_of_heard hheard
  -- no visit among these calls comes after the chosen one
  have hfree : ∀ (first : Calls) (u : Int) (after : Calls),
      before ++ chosen :: exits = first ++ (.visit, u) :: after →
      Journal.watch (({} : Journal).extend (Script.canceling (· = chosen) script) first) =
        none := by
    intro first u after hsplit
    refine Journal.watch_extend_eq_none fun d hd => decide_eq_false ?_
    rintro rfl
    rcases List.append_eq_append_iff.mp hsplit with ⟨l, rfl, hrest⟩ | ⟨l, rfl, -⟩
    · cases l with
      | nil => exact hbefore (by simpa using hd)
      | cons first l =>
        obtain ⟨-, rfl⟩ := List.cons.inj hrest
        exact nomatch hexits (.visit, u) (by simp)
    · exact hbefore (List.mem_append_left l hd)
  have hwatch : (scripted st detect Journal.watch (Script.canceling (· = chosen) script)).watch
      (({} : Journal).extend (Script.canceling (· = chosen) script) (before ++ chosen :: exits)) =
        some .canceled :=
    if_pos (List.any_eq_true.mpr ⟨chosen, by simp, decide_eq_true rfl⟩)
  obtain ⟨unheard, hcalls⟩ := Calls.heard_prefix (Script.fault script) calls
  rw [← hcalls, hheard, List.append_assoc, replay_append,
    replay_scripted (by rwa [Calls.heard_of_forall hnone]),
    Calls.heard_of_forall hnone, Calls.failure_of_forall hnone]
  dsimp only
  rw [List.cons_append, replay, hear_interrupted hwatch]

theorem Options.attend_noticed (st : Strategy) (detect : Bool) (script : Phase → Script)
    (chosen : Phase × Int) (x : Except SortError (Array Int) × Calls) :
    let canceled := scripted st detect Journal.watch (Script.canceling (· = chosen) script)
    let plain := scripted st detect Journal.watch (Script.canceling (fun _ => false) script)
    NoticedAtNextVisit chosen (canceled.attend x {}) (plain.attend x {}) := by
  intro canceled plain
  obtain ⟨answer, calls⟩ := x
  have hplain : plain.replay calls {} =
      (calls.failure (Script.fault script), ({} : Journal).extend
        (Script.canceling (fun _ => false) script) (calls.heard (Script.fault script))) :=
    replay_scripted fun _ _ _ _ => Journal.watch_extend_eq_none fun _ _ => rfl
  have hevents : (plain.attend (answer, calls) {}).2.events.toList =
      (calls.heard (Script.fault script)).map (Script.event script) := by
    rw [attend_snd, hplain]
    exact Journal.toList_events_extend _ _ _
  refine ⟨fun before e exits next rest hsplit hbefore he hexits hnext => ?_, fun hlast => ?_⟩
  · rw [hevents] at hsplit
    obtain ⟨before, l₁, hheard, rfl, h₁⟩ := List.map_eq_append_iff.mp hsplit
    obtain ⟨c, l₂, rfl, rfl, h₂⟩ := List.map_eq_cons_iff.mp h₁
    obtain ⟨exits, l₃, rfl, rfl, h₃⟩ := List.map_eq_append_iff.mp h₂
    obtain ⟨⟨phase, v⟩, rest, rfl, rfl, rfl⟩ := List.map_eq_cons_iff.mp h₃
    obtain rfl : phase = .visit := hnext
    obtain rfl : c = chosen := he
    rw [← List.cons_append, ← List.append_assoc] at hheard
    have hfirst : c ∉ before := fun hc =>
      hbefore (Script.event script c) (List.mem_map_of_mem hc) rfl
    have honly : ∀ d ∈ exits, d.1 = .exit := fun d hd =>
      hexits (Script.event script d) (List.mem_map_of_mem hd)
    rw [attend_of_objection (replay_interrupted hheard hfirst honly)]
    refine ⟨rfl, (Journal.toList_events_extend _ _ _).trans ?_⟩
    rw [List.map_append, List.map_cons]
    rfl
  · have hcanceled : canceled.replay calls {} =
        (calls.failure (Script.fault script), ({} : Journal).extend
          (Script.canceling (· = chosen) script) (calls.heard (Script.fault script))) := by
      refine replay_scripted fun before v after hsplit => ?_
      refine Journal.watch_extend_eq_none fun d hd => decide_eq_false ?_
      -- the visit would come after the chosen call
      rintro rfl
      obtain ⟨first, between, rfl⟩ := List.append_of_mem hd
      have htrace := hevents.trans (congrArg (List.map (Script.event script)) hsplit)
      rw [List.append_assoc, List.cons_append, List.map_append, List.map_cons] at htrace
      have hphase := hlast _ _ _ htrace rfl (Script.event script (.visit, v))
        (List.mem_map_of_mem (by simp))
      exact nomatch hphase
    unfold attend
    rw [hcanceled, hplain]
    cases calls.failure (Script.fault script) with
    | none => exact ⟨rfl, rfl⟩
    | some err => exact ⟨rfl, rfl⟩

end

/-! ## Searches that are stopped before they begin -/

section

variable {σ : Type} {o : Options σ} {c : σ} {cause : Interrupt} {n : Int}

/-- **A search that is to be stopped before it begins makes no call**, if there is a vertex. -/
theorem finishOrder_of_watch (g : Successors) (hn : 0 < n) (h : o.watch c = some cause) :
    finishOrder (some g) n o c = (.error (.interrupted cause), c) := by
  obtain ⟨k, hk⟩ : ∃ k, n.toNat = k + 1 := ⟨n.toNat - 1, by omega⟩
  have hfirst : vertices n.toNat = 0 :: (List.range' 1 k).map Int.ofNat := by
    rw [vertices, hk, List.range_eq_range', List.range'_succ, List.map_cons]
    rfl
  have hwatch : Search.discover ⟨g, o⟩ 0 (Search.start n.toNat c) =
      (.error (.interrupted cause), Search.start n.toNat c) := by
    rw [Search.discover, show o.watch (Search.start n.toNat c).client = some cause from h]
  rw [finishOrder, if_neg (by omega), hfirst, Search.sweep, Search.color_start,
    Search.enter_eq_walk, Search.walk, hwatch]
  rfl

theorem topologicalSort_of_watch (g : Successors) (hn : 0 < n) (h : o.watch c = some cause) :
    topologicalSort (some g) n o c = (.error (.interrupted cause), c) := by
  rw [topologicalSort, finishOrder_of_watch g hn h]

theorem finishOrder_zero (g : Successors) (o : Options σ) (c : σ) :
    finishOrder (some g) 0 o c = (.ok #[], c) := rfl

theorem topologicalSort_zero (g : Successors) (o : Options σ) (c : σ) :
    topologicalSort (some g) 0 o c = (.ok #[], c) := by
  have hreverse : reverse (#[] : Array Int) = #[] := Array.toList_inj.mp (toList_reverse _)
  rw [topologicalSort, finishOrder_zero]
  dsimp only
  rw [hreverse]

end

/-- **A search notices that it is to stop exactly when the next visit is due.** Whatever
the graph, the strategy, the detection of cycles and the calls on which the hooks fail, let a
hook ask the search to stop at a chosen call. Compared with the search whose hooks do not,
the calls are the same up to the next visit, which does not take place. If there is no
visit after the chosen call, the searches come to the same. A search that is to stop
before it begins makes no call, and succeeds only if there is no vertex. -/
theorem cancellation_noticed_at_next_visit (g : Successors) (n : Int) (st : Strategy)
    (detect : Bool) (script : Phase → Script) (chosen : Phase × Int) :
    let canceled := Options.scripted st detect Journal.watch
      (Script.canceling (· = chosen) script)
    let plain := Options.scripted st detect Journal.watch
      (Script.canceling (fun _ => false) script)
    NoticedAtNextVisit chosen
        (finishOrder (some g) n canceled {}) (finishOrder (some g) n plain {}) ∧
      NoticedAtNextVisit chosen
        (topologicalSort (some g) n canceled {}) (topologicalSort (some g) n plain {}) ∧
      ∀ (w : Watch Journal) (j : Journal) (cause : Interrupt), w j = some cause →
        let stopped := Options.scripted st detect w script
        (0 < n → finishOrder (some g) n stopped j = (.error (.interrupted cause), j) ∧
          topologicalSort (some g) n stopped j = (.error (.interrupted cause), j)) ∧
        (n = 0 → finishOrder (some g) n stopped j = (.ok #[], j) ∧
          topologicalSort (some g) n stopped j = (.ok #[], j)) := by
  intro canceled plain
  refine ⟨?_, ?_, fun w j cause hw => ⟨fun hn => ?_, ?_⟩⟩
  · rw [finishOrder_eq_attend (some g) n canceled, finishOrder_eq_attend (some g) n plain]
    exact Options.attend_noticed st detect script chosen _
  · rw [topologicalSort_eq_attend (some g) n canceled, topologicalSort_eq_attend (some g) n plain]
    exact Options.attend_noticed st detect script chosen _
  · exact ⟨finishOrder_of_watch g hn hw, topologicalSort_of_watch g hn hw⟩
  · rintro rfl
    exact ⟨finishOrder_zero g _ j, topologicalSort_zero g _ j⟩

/-- The hook asks to stop when `2` is visited: `2` and `1` are still exited, and `3` is not
visited. -/
theorem cancellation_noticed_at_next_visit_sample :
    let g := (Adjacency.ofList [(0, [1, 3]), (1, [2])]).successors
    let script : Phase → Script := fun _ => { tag := "hook" }
    let search := finishOrder (some g) 4 (Options.scripted .stack false Journal.watch
      (Script.canceling (fun e => decide (e = (.visit, 2))) script)) {}
    let heard : Calls := [(.visit, 0), (.visit, 1), (.visit, 2), (.exit, 2), (.exit, 1)]
    search.1 = .error (.interrupted .canceled) ∧
      search.2.events.toList = heard.map (Script.event script) := by
  intro g script search heard
  let before : Calls := [(.visit, 0), (.visit, 1)]
  let exits : Calls := [(.exit, 2), (.exit, 1)]
  let rest : Calls := [(.exit, 3), (.exit, 0)]
  refine (cancellation_noticed_at_next_visit g 4 .stack false script (.visit, 2)).1.noticed
    (before.map (Script.event script)) (Script.event script (.visit, 2))
    (exits.map (Script.event script)) (Script.event script (.visit, 3))
    (rest.map (Script.event script)) ?_ (by decide) rfl (by decide) rfl
  cbv

end TopologicalOrder
