import TopologicalOrder.Proofs.Actions

/-!
# The moves of the explicit stack

One step of a search on its own stack does one of three things to the top frame:
it passes a successor by, it descends into one, or it leaves a vertex whose
successors are all examined. `Machine.Move` lists the three with what each of
them presupposes, and `Machine.Halt` lists the three ways in which a step can
fail instead.

The loop is then a chain of moves, to the empty stack or to a machine that halts
(`Machine.moves_of_run_eq_ok`, `Machine.halt_of_run_eq_error`). Whatever is kept
by each move therefore holds wherever the loop arrives, and that is the form in
which the loop is reasoned about everywhere else.
-/

namespace TopologicalOrder

/-! ## The two parts of a successor list -/

namespace Frame

/-- The frame after one more of its successors has been examined. -/
def advance (f : Frame) : Frame := { f with next := f.next + 1 }

/-- The successors examined so far, the latest one last. -/
def examined (f : Frame) : List Int := f.successors.toList.take f.next

/-- The successors not examined yet. -/
def remaining (f : Frame) : List Int := f.successors.toList.drop f.next

variable {f : Frame} {u : Int}

@[simp] theorem vertex_advance (f : Frame) : f.advance.vertex = f.vertex := rfl

@[simp] theorem vertex_enter (v : Int) (us : List Int) : (enter v us).vertex = v := rfl

@[simp] theorem remaining_enter (v : Int) (us : List Int) : (enter v us).remaining = us := rfl

theorem mem_successors_of_mem_examined (h : u ∈ f.examined) : u ∈ f.successors.toList :=
  List.mem_of_mem_take h

/-- The successor at hand is the first of the remaining ones. -/
theorem remaining_eq_cons (h : f.successors[f.next]? = some u) :
    f.remaining = u :: f.advance.remaining := by
  rw [← Array.getElem?_toList] at h
  obtain ⟨hlt, rfl⟩ := List.getElem?_eq_some_iff.mp h
  exact List.drop_eq_getElem_cons hlt

/-- The successor at hand is the next one to count as examined. -/
theorem examined_advance (h : f.successors[f.next]? = some u) :
    f.advance.examined = f.examined ++ [u] := by
  rw [← Array.getElem?_toList] at h
  show f.successors.toList.take (f.next + 1) = f.successors.toList.take f.next ++ [u]
  rw [List.take_add_one, h]
  rfl

theorem remaining_eq_nil (h : f.successors.size ≤ f.next) : f.remaining = [] :=
  List.drop_eq_nil_of_le h

/-- At the end of its list a frame has examined all successors. -/
theorem examined_eq_successors (h : f.successors.size ≤ f.next) :
    f.examined = f.successors.toList :=
  List.take_of_length_le h

end Frame

namespace Machine

variable {σ : Type} {t : Task σ} {m m' : Machine σ} {f : Frame} {fs : List Frame}
variable {s r : Search σ} {e : SortError}

/-! ## One step -/

/-- **A step that succeeds.** -/
inductive Move (t : Task σ) : Machine σ → Machine σ → Prop
  /-- A successor calls for nothing. -/
  | pass {f : Frame} {fs : List Frame} {s : Search σ} {u : Int}
      (hnext : f.successors[f.next]? = some u)
      (hexamine : Search.examine t f.vertex u s = .ok false) :
      Move t ⟨f :: fs, s⟩ ⟨f.advance :: fs, s⟩
  /-- A successor is white, and the search descends into it. -/
  | descend {f : Frame} {fs : List Frame} {s r : Search σ} {u : Int} {us : List Int}
      (hnext : f.successors[f.next]? = some u)
      (hexamine : Search.examine t f.vertex u s = .ok true)
      (hdiscover : Search.discover t u s = (.ok us, r)) :
      Move t ⟨f :: fs, s⟩ ⟨Frame.enter u us :: f.advance :: fs, r⟩
  /-- No successor is left, and the search leaves the vertex. -/
  | leave {f : Frame} {fs : List Frame} {s r : Search σ}
      (hdone : f.successors.size ≤ f.next)
      (hfinish : Search.finish t f.vertex s = (.ok (), r)) :
      Move t ⟨f :: fs, s⟩ ⟨fs, r⟩

/-- **A step that fails**, with the cause and the state in which the search is
left. -/
inductive Halt (t : Task σ) : Machine σ → SortError → Search σ → Prop
  /-- An edge is refused. -/
  | refuse {f : Frame} {fs : List Frame} {s : Search σ} {u : Int} {e : SortError}
      (hnext : f.successors[f.next]? = some u)
      (hexamine : Search.examine t f.vertex u s = .error e) :
      Halt t ⟨f :: fs, s⟩ e s
  /-- A white successor cannot be discovered. -/
  | descend {f : Frame} {fs : List Frame} {s r : Search σ} {u : Int} {e : SortError}
      (hnext : f.successors[f.next]? = some u)
      (hexamine : Search.examine t f.vertex u s = .ok true)
      (hdiscover : Search.discover t u s = (.error e, r)) :
      Halt t ⟨f :: fs, s⟩ e r
  /-- The vertex of the top frame cannot be finished. -/
  | leave {f : Frame} {fs : List Frame} {s r : Search σ} {e : SortError}
      (hdone : f.successors.size ≤ f.next)
      (hfinish : Search.finish t f.vertex s = (.error e, r)) :
      Halt t ⟨f :: fs, s⟩ e r

theorem move_of_step (h : step t ⟨f :: fs, s⟩ = (.ok (), m)) : Move t ⟨f :: fs, s⟩ m := by
  unfold step at h
  dsimp only at h
  split at h
  · rename_i hlt
    have hnext : f.successors[f.next]? = some f.successors[f.next] :=
      Array.getElem?_eq_getElem hlt
    split at h
    · exact absurd (congrArg Prod.fst h) (by simp)
    · rename_i hexamine
      obtain rfl : _ = m := congrArg Prod.snd h
      exact Move.pass hnext hexamine
    · rename_i hexamine
      split at h
      · exact absurd (congrArg Prod.fst h) (by simp)
      · rename_i hdiscover
        obtain rfl : _ = m := congrArg Prod.snd h
        exact Move.descend hnext hexamine hdiscover
  · rename_i hge
    split at h
    · exact absurd (congrArg Prod.fst h) (by simp)
    · rename_i hfinish
      obtain rfl : _ = m := congrArg Prod.snd h
      exact Move.leave (Nat.le_of_not_lt hge) hfinish

theorem halt_of_step (h : step t ⟨f :: fs, s⟩ = (.error e, m)) :
    Halt t ⟨f :: fs, s⟩ e m.search := by
  unfold step at h
  dsimp only at h
  split at h
  · rename_i hlt
    have hnext : f.successors[f.next]? = some f.successors[f.next] :=
      Array.getElem?_eq_getElem hlt
    split at h
    · rename_i hexamine
      obtain ⟨herror, rfl⟩ := Prod.mk.inj h
      obtain rfl := Except.error.inj herror
      exact Halt.refuse hnext hexamine
    · exact absurd (congrArg Prod.fst h) (by simp)
    · rename_i hexamine
      split at h
      · rename_i hdiscover
        obtain ⟨herror, rfl⟩ := Prod.mk.inj h
        obtain rfl := Except.error.inj herror
        exact Halt.descend hnext hexamine hdiscover
      · exact absurd (congrArg Prod.fst h) (by simp)
  · rename_i hge
    split at h
    · rename_i hfinish
      obtain ⟨herror, rfl⟩ := Prod.mk.inj h
      obtain rfl := Except.error.inj herror
      exact Halt.leave (Nat.le_of_not_lt hge) hfinish
    · exact absurd (congrArg Prod.fst h) (by simp)

/-! ## The whole loop -/

/-- Any number of moves. -/
abbrev Moves (t : Task σ) : Machine σ → Machine σ → Prop := Relation.ReflTransGen (Move t)

/-- What every move keeps is kept by any number of them. -/
theorem Moves.preserve {P : Machine σ → Prop} (hmove : ∀ m m', Move t m m' → P m → P m')
    (h : Moves t m m') (hm : P m) : P m' := by
  induction h with
  | refl => exact hm
  | tail _ hlast ih => exact hmove _ _ hlast ih

/-- **A loop that succeeds moves to the empty stack.** -/
theorem moves_of_run_eq_ok (h : run t m = (.ok (), s)) : Moves t m ⟨[], s⟩ := by
  induction m using run.induct t with
  | case1 r =>
    rw [run] at h
    obtain ⟨-, rfl⟩ := Prod.mk.inj h
    exact Relation.ReflTransGen.refl
  | case2 f fs r e m hstep =>
    rw [run, hstep] at h
    exact absurd (congrArg Prod.fst h) (by simp)
  | case3 f fs r m hstep ih =>
    rw [run, hstep] at h
    exact Relation.ReflTransGen.head (move_of_step hstep) (ih h)

/-- **A loop that fails moves to a machine that halts.** -/
theorem halt_of_run_eq_error (h : run t m = (.error e, s)) :
    ∃ m', Moves t m m' ∧ Halt t m' e s := by
  induction m using run.induct t with
  | case1 r =>
    rw [run] at h
    exact absurd (congrArg Prod.fst h) (by simp)
  | case2 f fs r e m hstep =>
    rw [run, hstep] at h
    obtain ⟨herror, rfl⟩ := Prod.mk.inj h
    obtain rfl := Except.error.inj herror
    exact ⟨_, Relation.ReflTransGen.refl, halt_of_step hstep⟩
  | case3 f fs r m hstep ih =>
    rw [run, hstep] at h
    obtain ⟨m', hmoves, hhalt⟩ := ih h
    exact ⟨m', Relation.ReflTransGen.head (move_of_step hstep) hmoves, hhalt⟩

end Machine

end TopologicalOrder
