import TopologicalOrder.Search.State

/-!
# The explicit-stack strategy

`Search.walk` keeps the path to the current vertex itself, as a list of frames
with the top first. A frame holds a gray vertex, its successors and the index
of the successor to examine next. One step looks at the top frame: it examines
one successor, pushing a frame if the successor is to be descended into, or
finishes the vertex of a frame that has no successor left.

`Machine.work` counts what is left to do on the stack: one unit per frame and
one per successor not yet examined. Each step discovers a white vertex or does
one unit of that work, so the loop ends.
-/

namespace TopologicalOrder

/-- A vertex on the current path. -/
structure Frame where
  /-- The vertex. -/
  vertex : Int
  /-- Its successors, as fetched when it was discovered. -/
  successors : Array Int
  /-- The index of the successor that is examined next. -/
  next : Nat

/-- The frame of a vertex that has just been discovered. -/
def Frame.enter (v : Int) (us : List Int) : Frame :=
  { vertex := v, successors := us.toArray, next := 0 }

/-- A search with an explicit stack: the frames of the current path, the top
first, and the state of the search. -/
structure Machine (σ : Type) where
  /-- The current path, its last vertex first. -/
  frames : List Frame
  /-- The state of the search. -/
  search : Search σ

namespace Machine

variable {σ : Type}

/-- What is left to do on the frames: each is to be finished, and each of its
remaining successors to be examined. -/
def work : List Frame → Nat
  | [] => 0
  | f :: fs => (f.successors.size - f.next + 1) + work fs

/-- **One step on the top frame.** An empty stack stays as it is. -/
def step (t : Task σ) (m : Machine σ) : Except SortError Unit × Machine σ :=
  match m with
  | ⟨[], s⟩ => (.ok (), ⟨[], s⟩)
  | ⟨f :: fs, s⟩ =>
    if h : f.next < f.successors.size then
      let u := f.successors[f.next]
      let rest := { f with next := f.next + 1 } :: fs
      match Search.examine t f.vertex u s with
      | .error e => (.error e, ⟨rest, s⟩)
      | .ok false => (.ok (), ⟨rest, s⟩)
      | .ok true =>
        match Search.discover t u s with
        | (.error e, s) => (.error e, ⟨rest, s⟩)
        | (.ok us, s) => (.ok (), ⟨Frame.enter u us :: rest, s⟩)
    else
      match Search.finish t f.vertex s with
      | (.error e, s) => (.error e, ⟨fs, s⟩)
      | (.ok (), s) => (.ok (), ⟨fs, s⟩)

/-- **A step that succeeds makes progress**: it takes a white vertex away, or it
keeps the white vertices and does work on the frames. -/
theorem step_lt {t : Task σ} {f : Frame} {fs : List Frame} {s : Search σ} {m : Machine σ}
    (h : step t ⟨f :: fs, s⟩ = (.ok (), m)) :
    Prod.Lex (· < ·) (· < ·) (m.search.whites, work m.frames) (s.whites, work (f :: fs)) := by
  unfold step at h
  split at h
  · simp at *
  · rename_i g gs r heq
    obtain ⟨⟨rfl, rfl⟩, rfl⟩ : (f = g ∧ fs = gs) ∧ s = r := by simpa using heq
    split at h
    · dsimp only at h
      split at h
      · simp at h
      · obtain rfl : _ = m := congrArg Prod.snd h
        refine Prod.Lex.right _ ?_
        simp only [work]
        omega
      · rename_i hx
        split at h
        · simp at h
        · rename_i hd
          obtain rfl : _ = m := congrArg Prod.snd h
          exact Prod.Lex.left _ _ (Search.whites_discover_lt t
            (Search.white_of_examine hx).1 (Search.white_of_examine hx).2 hd)
    · split at h
      · simp at h
      · rename_i r hf
        obtain rfl : _ = m := congrArg Prod.snd h
        have hle : r.whites ≤ s.whites := by
          simpa [hf] using Search.whites_finish_le t f.vertex s
        rcases Nat.lt_or_eq_of_le hle with hlt | heq
        · exact Prod.Lex.left _ _ hlt
        · refine Prod.lex_def.mpr (Or.inr ⟨heq, ?_⟩)
          simp only [work]
          omega

/-- **Steps until the stack is empty** or a step fails. -/
def run (t : Task σ) (m : Machine σ) : Except SortError Unit × Search σ :=
  match m with
  | ⟨[], s⟩ => (.ok (), s)
  | ⟨f :: fs, s⟩ =>
    match _h : step t ⟨f :: fs, s⟩ with
    | (.error e, m) => (.error e, m.search)
    | (.ok (), m) => run t m
termination_by (m.search.whites, work m.frames)
decreasing_by exact step_lt (by assumption)

end Machine

/-- **Visits the white vertex `v`** and all white vertices that can be reached
from it through white vertices, on a stack of its own. -/
def Search.walk {σ : Type} (t : Task σ) (v : Int) (s : Search σ) :
    Except SortError Unit × Search σ :=
  match Search.discover t v s with
  | (.error e, r) => (.error e, r)
  | (.ok us, r) => Machine.run t ⟨[Frame.enter v us], r⟩

end TopologicalOrder
