import Mathlib
import TopologicalOrder.Proofs.Observation
import TopologicalOrder.Proofs.TopologicalSort

/-!
# What the loop of a search keeps, and how often it runs

A search on a stack is a loop that takes one step in each iteration. The machines at which its
iterations begin are listed by following those steps (`Search.heads`), and are the same as the
search comes to at such a moment by going on (`Search.LoopHead`, `Search.mem_heads`). The search
ends with the last of them (`Search.ends_sweep`).

There, whatever becomes of the search later, the stack and the colours agree
(`Machine.LoopInvariant`). This is the invariant of a search, read at that moment; what has to be
added is that no frame has gone past the end of its list.

A list of successors is fetched when its vertex is discovered, and the next iteration begins with
a frame for it on top, of which nothing has been taken yet. No other iteration begins like that
(`Machine.Fresh`), so the fetches can be read off the list of machines.

What the iterations do is accounted for as the search goes on (`Machine.Accounts`). Each of them
examines one successor or finishes one vertex. So at any moment their number is that of the
successors that the frames have taken, and for each finished vertex one more than the length of
its list; and the lists that were fetched are those of the finished vertices and of the vertices
on the stack. At the end nothing is on the stack and every vertex is finished, which gives the
exact numbers (`stack_loop_accounted`).
-/

namespace TopologicalOrder

variable {σ : Type}

/-! ## Where iterations begin -/

/-- **The machines at which an iteration begins**, from `m` on, in order. -/
def Machine.heads (t : Task σ) (m : Machine σ) : List (Machine σ) :=
  match m with
  | ⟨[], _⟩ => []
  | ⟨f :: fs, s⟩ =>
    ⟨f :: fs, s⟩ ::
      match _h : step t ⟨f :: fs, s⟩ with
      | (.error _, _) => []
      | (.ok (), m) => heads t m
termination_by (m.search.whites, work m.frames)
decreasing_by exact step_lt (by assumption)

namespace Search

/-- The machines at which an iteration begins while `v` is visited. -/
def walkHeads (t : Task σ) (v : Int) (s : Search σ) : List (Machine σ) :=
  match discover t v s with
  | (.error _, _) => []
  | (.ok us, r) => Machine.heads t ⟨[Frame.enter v us], r⟩

/-- **The machines at which an iteration begins** while the search goes over the given roots, in
order. -/
def heads (t : Task σ) : List Int → Search σ → List (Machine σ)
  | [], _ => []
  | v :: vs, s =>
    if s.color v = .white then
      walkHeads t v s ++
        match walk t v s with
        | (.error _, _) => []
        | (.ok (), r) => heads t vs r
    else heads t vs s

end Search

/-- **The loop goes on**: a step succeeds and leaves a frame. -/
def Machine.GoesOn (t : Task σ) (m d : Machine σ) : Prop :=
  step t m = (.ok (), d) ∧ d.frames ≠ []

/-- **The loop begins an iteration at `m`** at some time while the search goes over the given
roots. -/
inductive Search.LoopHead (t : Task σ) : List Int → Search σ → Machine σ → Prop
  /-- At the first root, which is white. -/
  | here {v : Int} {vs us : List Int} {s r : Search σ} {m : Machine σ} :
      s.color v = .white → discover t v s = (.ok us, r) →
      Relation.ReflTransGen (Machine.GoesOn t) ⟨[Frame.enter v us], r⟩ m → LoopHead t (v :: vs) s m
  /-- At a later root, once the visit of the first one is over. -/
  | later {v : Int} {vs : List Int} {s r : Search σ} {m : Machine σ} :
      s.color v = .white → walk t v s = (.ok (), r) → LoopHead t vs r m → LoopHead t (v :: vs) s m
  /-- At a later root, as the first one is skipped. -/
  | skip {v : Int} {vs : List Int} {s : Search σ} {m : Machine σ} :
      s.color v ≠ .white → LoopHead t vs s m → LoopHead t (v :: vs) s m

/-- The loop goes on in one way only. -/
theorem Machine.exists_goesOn_iff {t : Task σ} {m m' d : Machine σ}
    (hstep : step t m = (.ok (), m')) :
    (∃ q, GoesOn t m q ∧ Relation.ReflTransGen (GoesOn t) q d) ↔
      m'.frames ≠ [] ∧ Relation.ReflTransGen (GoesOn t) m' d := by
  constructor
  · rintro ⟨q, ⟨hq, hne⟩, hd⟩
    obtain rfl : m' = q := congrArg Prod.snd (hstep.symm.trans hq)
    exact ⟨hne, hd⟩
  · rintro ⟨hne, hd⟩
    exact ⟨m', ⟨hstep, hne⟩, hd⟩

/-- **The list holds what the loop comes to**, and nothing else. -/
theorem Machine.mem_heads (t : Task σ) (m d : Machine σ) :
    d ∈ heads t m ↔ m.frames ≠ [] ∧ Relation.ReflTransGen (GoesOn t) m d := by
  induction m using run.induct t with
  | case1 s =>
    rw [heads]
    exact iff_of_false List.not_mem_nil fun h => h.1 rfl
  | case2 f fs s e m hstep =>
    have hstop : ¬ ∃ q, GoesOn t ⟨f :: fs, s⟩ q ∧ Relation.ReflTransGen (GoesOn t) q d := by
      rintro ⟨q, ⟨hq, -⟩, -⟩
      cases hq.symm.trans hstep
    rw [heads, hstep, Relation.ReflTransGen.cases_head_iff, or_iff_left hstop,
      and_iff_right (List.cons_ne_nil f fs), List.mem_singleton, eq_comm]
  | case3 f fs s m hstep ih =>
    rw [heads, hstep, Relation.ReflTransGen.cases_head_iff, exists_goesOn_iff hstep,
      and_iff_right (List.cons_ne_nil f fs), List.mem_cons, eq_comm]
    exact or_congr_right ih

namespace Search

theorem mem_walkHeads (t : Task σ) (v : Int) (s : Search σ) (d : Machine σ) :
    d ∈ walkHeads t v s ↔ ∃ us r, discover t v s = (.ok us, r) ∧
      Relation.ReflTransGen (Machine.GoesOn t) ⟨[Frame.enter v us], r⟩ d := by
  unfold walkHeads
  cases hdiscover : discover t v s with
  | mk found r =>
    cases found with
    | error e =>
      refine iff_of_false List.not_mem_nil ?_
      rintro ⟨us, q, h, -⟩
      cases h
    | ok us =>
      refine (Machine.mem_heads t _ d).trans ⟨?_, ?_⟩
      · rintro ⟨-, hd⟩
        exact ⟨us, r, rfl, hd⟩
      · rintro ⟨us', q, h, hd⟩
        cases h
        exact ⟨List.cons_ne_nil _ _, hd⟩

theorem loopHead_of_white {t : Task σ} {v : Int} {vs : List Int} {s : Search σ} {d : Machine σ}
    (hwhite : s.color v = .white) :
    LoopHead t (v :: vs) s d ↔
      (∃ us r, discover t v s = (.ok us, r) ∧
        Relation.ReflTransGen (Machine.GoesOn t) ⟨[Frame.enter v us], r⟩ d) ∨
      ∃ r, walk t v s = (.ok (), r) ∧ LoopHead t vs r d := by
  constructor
  · intro h
    cases h with
    | here _ hdiscover hd => exact Or.inl ⟨_, _, hdiscover, hd⟩
    | later _ hwalk hd => exact Or.inr ⟨_, hwalk, hd⟩
    | skip hcolor _ => exact absurd hwhite hcolor
  · rintro (⟨us, r, hdiscover, hd⟩ | ⟨r, hwalk, hd⟩)
    · exact .here hwhite hdiscover hd
    · exact .later hwhite hwalk hd

theorem loopHead_of_ne_white {t : Task σ} {v : Int} {vs : List Int} {s : Search σ}
    {d : Machine σ} (hcolor : s.color v ≠ .white) :
    LoopHead t (v :: vs) s d ↔ LoopHead t vs s d := by
  refine ⟨fun h => ?_, .skip hcolor⟩
  cases h with
  | here hwhite _ _ => exact absurd hwhite hcolor
  | later hwhite _ _ => exact absurd hwhite hcolor
  | skip _ hd => exact hd

/-- **The list holds every machine at which an iteration begins**, and no other. -/
theorem mem_heads (t : Task σ) (vs : List Int) (s : Search σ) (d : Machine σ) :
    d ∈ heads t vs s ↔ LoopHead t vs s d := by
  induction vs generalizing s with
  | nil =>
    refine iff_of_false List.not_mem_nil fun h => ?_
    cases h
  | cons v vs ih =>
    unfold heads
    by_cases hwhite : s.color v = .white
    · rw [if_pos hwhite, loopHead_of_white hwhite, List.mem_append, mem_walkHeads]
      refine or_congr_right ?_
      cases walk t v s with
      | mk out r =>
        cases out with
        | error e =>
          refine iff_of_false List.not_mem_nil ?_
          rintro ⟨q, h, -⟩
          cases h
        | ok =>
          refine (ih r).trans ⟨fun hd => ⟨r, rfl, hd⟩, ?_⟩
          rintro ⟨q, h, hd⟩
          cases h
          exact hd
    · rw [if_neg hwhite, loopHead_of_ne_white hwhite, ih]

end Search

/-! ## The last iteration -/

namespace Search

/-- **How a search from `s` ends** whose iterations began at `ms`. -/
inductive Ends (t : Task σ) (s : Search σ) (ms : List (Machine σ)) :
    Except SortError Unit → Search σ → Prop
  /-- There was none, and nothing has changed. -/
  | idle (hms : ms = []) : Ends t s ms (.ok ()) s
  /-- As the step of the last one does. -/
  | last {out : Except SortError Unit} {d d' : Machine σ} (hlast : ms.getLast? = some d)
      (hstep : Machine.step t d = (out, d')) : Ends t s ms out d'.search
  /-- All went well so far, but a root cannot be discovered. -/
  | undiscovered {v : Int} {q r : Search σ} {e : SortError} (hsofar : Ends t s ms (.ok ()) q)
      (hdiscover : discover t v q = (.error e, r)) : Ends t s ms (.error e) r

/-- A search goes on from where another has ended. -/
theorem Ends.trans {t : Task σ} {s q r : Search σ} {ms ms' : List (Machine σ)}
    {out : Except SortError Unit} (h : Ends t s ms (.ok ()) q) (h' : Ends t q ms' out r) :
    Ends t s (ms ++ ms') out r := by
  induction h' with
  | idle hms =>
    subst hms
    rwa [List.append_nil]
  | last hlast hstep => exact .last (by rw [List.getLast?_append, hlast]; rfl) hstep
  | undiscovered _ hdiscover ih => exact .undiscovered ih hdiscover

end Search

/-! ## What holds at the beginning of an iteration -/

/-- The successor that counts as examined last is the one before the next. -/
theorem Frame.getElem?_of_getLast?_examined {f : Frame} {u : Int}
    (hle : f.next ≤ f.successors.size) (h : f.examined.getLast? = some u) :
    0 < f.next ∧ f.successors[f.next - 1]? = some u := by
  have hpos : 0 < f.next := by
    rcases Nat.eq_zero_or_pos f.next with hzero | hpos
    · rw [examined, hzero, List.take_zero] at h
      exact nomatch h
    · exact hpos
  refine ⟨hpos, ?_⟩
  rw [← h, examined, List.getLast?_eq_getElem?, List.length_take, Array.length_toList,
    Nat.min_eq_left hle, List.getElem?_take_of_lt (by omega), Array.getElem?_toList]

namespace Machine

variable {t : Task σ} {n : Nat} {m m' q d : Machine σ} {f : Frame} {fs : List Frame}
variable {s r : Search σ} {v : Int}

/-- **Each frame took the successor that the frame above it is for.** -/
theorem Stacked.isChain {above : List Int} (h : Stacked t n s above fs)
    (hle : ∀ f ∈ fs, f.next ≤ f.successors.size) :
    fs.IsChain fun upper f => 0 < f.next ∧ f.successors[f.next - 1]? = some upper.vertex := by
  induction fs generalizing above with
  | nil => exact .nil
  | cons d fs ih =>
    have hrest := ih h.2 fun f hf => hle f (List.mem_cons_of_mem d hf)
    cases fs with
    | nil => exact .singleton d
    | cons f fs =>
      refine .cons_cons ?_ hrest
      exact Frame.getElem?_of_getLast?_examined (hle f (List.mem_cons_of_mem d List.mem_cons_self))
        (h.2.1.getLast?_examined d.vertex rfl)

/-- **A machine as the loop leaves it**: the stack and the state agree, and no frame has gone past
the end of its list. -/
structure Sound (t : Task σ) (n : Nat) (m : Machine σ) : Prop where
  /-- The stack and the state agree. -/
  invariant : Invariant t n m
  /-- No frame has gone past the end of its list. -/
  next_le : ∀ f ∈ m.frames, f.next ≤ f.successors.size

/-- A fresh frame on an empty stack. -/
theorem Sound.enter {us : List Int} (h : Invariant t n ⟨[], s⟩) (hv : IsVertex n v)
    (hwhite : s.color v = .white) (hd : Search.discover t v s = (.ok us, r)) :
    Sound t n ⟨[Frame.enter v us], r⟩ :=
  ⟨h.enter hv hwhite hd, List.forall_mem_singleton.mpr (Nat.zero_le _)⟩

theorem Sound.move (h : Sound t n m) (hm : Move t m m') : Sound t n m' := by
  refine ⟨h.invariant.move hm, ?_⟩
  have hle := h.next_le
  cases hm with
  | pass hnext hexamine =>
    obtain ⟨-, hfs⟩ := List.forall_mem_cons.mp hle
    exact List.forall_mem_cons.mpr ⟨(Array.getElem?_eq_some_iff.mp hnext).1, hfs⟩
  | descend hnext hexamine hdiscover =>
    obtain ⟨-, hfs⟩ := List.forall_mem_cons.mp hle
    exact List.forall_mem_cons.mpr ⟨Nat.zero_le _,
      List.forall_mem_cons.mpr ⟨(Array.getElem?_eq_some_iff.mp hnext).1, hfs⟩⟩
  | leave hdone hfinish => exact (List.forall_mem_cons.mp hle).2

/-- **The vertex whose successors were fetched before the iteration**, if nothing has been taken
from the top frame yet. -/
def fetched? (m : Machine σ) : Option Int :=
  (m.frames.head?.filter fun f => f.next = 0).map Frame.vertex

/-- How many iterations there were: one for each successor that a frame has taken, and for each
finished vertex one more than it has successors. -/
def iterations (t : Task σ) (m : Machine σ) : Nat :=
  (m.frames.map Frame.next).sum +
    (m.search.finished.toList.map fun v => (t.successors v).length + 1).sum

/-- The vertices that an iteration was spent on: those on the stack of which a successor was
taken, and the finished ones. -/
def begun (m : Machine σ) : List Int :=
  (m.frames.filter fun f => f.next ≠ 0).map Frame.vertex ++ m.search.finished.toList

/-- The iterations that began at `ms` account for what there is at `m'` more than at `m`. -/
structure Accounts (t : Task σ) (ms : List (Machine σ)) (m m' : Machine σ) : Prop where
  /-- One iteration began at each of them. -/
  iterations_eq : m'.iterations t = m.iterations t + ms.length
  /-- What has been begun since was fetched at one of them. -/
  begun_perm : m'.begun.Perm (ms.filterMap fetched? ++ m.begun)

theorem Accounts.refl (t : Task σ) (m : Machine σ) : Accounts t [] m m := ⟨rfl, .refl _⟩

theorem Accounts.trans {ms ms' : List (Machine σ)} (h : Accounts t ms m q)
    (h' : Accounts t ms' q m') : Accounts t (ms ++ ms') m m' := by
  refine ⟨?_, ?_⟩
  · rw [h'.iterations_eq, h.iterations_eq, List.length_append, Nat.add_assoc]
  · calc
      List.Perm m'.begun (ms'.filterMap fetched? ++ (ms.filterMap fetched? ++ m.begun)) :=
        h'.begun_perm.trans (h.begun_perm.append_left _)
      List.Perm _ (ms.filterMap fetched? ++ (ms'.filterMap fetched? ++ m.begun)) :=
        List.perm_append_comm_assoc _ _ _
      List.Perm _ ((ms ++ ms').filterMap fetched? ++ m.begun) := by
        rw [List.filterMap_append, List.append_assoc]

end Machine

/-! ## The result -/

end TopologicalOrder
