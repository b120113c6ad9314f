import TopologicalOrder.Search.Failure

/-!
# The state of a search

A search over the vertices `0 … n - 1` keeps one colour per vertex. A vertex is
white until it is discovered, gray while it lies on the current path, and black
once all its successors have been examined; the black vertices are listed in
the order in which they became black.

Three actions make up every search, whatever its strategy: `discover` turns a
white vertex gray and fetches its successors, `examine` decides what one edge
calls for, and `finish` turns a gray vertex black. Each of them answers with
the state it leaves also when it fails, so that the client's state survives.

No action ever makes a vertex white, and discovering a white vertex takes one
away (`Search.whites_discover_lt`). That is why both strategies end.
-/

namespace TopologicalOrder

/-- What a search knows of a vertex. -/
inductive Color
  /-- Not discovered yet. -/
  | white
  /-- On the current path. -/
  | gray
  /-- Finished. -/
  | black
  deriving DecidableEq, Repr

/-- A graph as a search sees it: the ordered successor list of every vertex. -/
abbrev Successors : Type := Int → List Int

/-- What stays fixed during a search. -/
structure Task (σ : Type) where
  /-- The graph. -/
  successors : Successors
  /-- The client's choices. -/
  options : Options σ

/-- **The state of a search**: one colour per vertex, the finished vertices and
the client's own state. -/
structure Search (σ : Type) where
  /-- The colour of each vertex. -/
  colors : Array Color
  /-- The black vertices, the latest one last. -/
  finished : Array Int
  /-- The client's state. -/
  client : σ

namespace Search

variable {σ : Type}

/-- The state before anything is discovered. -/
def start (n : Nat) (client : σ) : Search σ :=
  { colors := Array.replicate n .white, finished := #[], client := client }

/-- The number of vertices. -/
def order (s : Search σ) : Nat := s.colors.size

/-- The colour of a vertex of the search. -/
def color (s : Search σ) (v : Int) : Color := s.colors.getD v.toNat .white

/-- Gives a vertex another colour. -/
def paint (s : Search σ) (v : Int) (c : Color) : Search σ :=
  { s with colors := s.colors.setIfInBounds v.toNat c }

/-- Paints a vertex black and lists it as finished. -/
def retire (s : Search σ) (v : Int) : Search σ :=
  { s with
    colors := s.colors.setIfInBounds v.toNat .black
    finished := s.finished.push v }

/-- How many vertices are still white. -/
def whites (s : Search σ) : Nat := s.colors.count .white

/-! ## The three actions -/

/-- Calls a hook, if there is one, on the client's state. -/
def announce (hook : Option (Hook σ)) (v : Int) (s : Search σ) : Option String × Search σ :=
  match hook with
  | none => (none, s)
  | some call =>
    match call v s.client with
    | (reply, client) => (reply, { s with client := client })

/-- **Discovers `v`**: asks the watch, paints `v` gray, calls the hook, and only
then fetches the successors of `v`. -/
def discover (t : Task σ) (v : Int) (s : Search σ) : Except SortError (List Int) × Search σ :=
  match t.options.watch s.client with
  | some cause => (.error (.interrupted cause), s)
  | none =>
    match announce t.options.onVisit v (s.paint v .gray) with
    | (some reason, s) => (.error (.hookFailed .visit v reason), s)
    | (none, s) => (.ok (t.successors v), s)

/-- **Decides what the edge from `v` to `u` calls for**: to descend into `u`, to
pass it by, or to fail because `u` is no vertex or closes a cycle. -/
def examine (t : Task σ) (v u : Int) (s : Search σ) : Except SortError Bool :=
  if 0 ≤ u ∧ u < s.order then
    match s.color u with
    | .white => .ok true
    | .gray => if t.options.detectCycles then .error (.cycle v u) else .ok false
    | .black => .ok false
  else .error (.outOfRange u v s.order)

/-- **Finishes `v`**: calls the hook, then paints `v` black and lists it. -/
def finish (t : Task σ) (v : Int) (s : Search σ) : Except SortError Unit × Search σ :=
  match announce t.options.onExit v s with
  | (some reason, s) => (.error (.hookFailed .exit v reason), s)
  | (none, s) => (.ok (), s.retire v)

/-! ## White vertices only become fewer -/

theorem whites_paint_le (s : Search σ) (v : Int) {c : Color} (hc : c ≠ .white) :
    (s.paint v c).whites ≤ s.whites := by
  unfold whites paint Array.setIfInBounds
  split
  · rw [Array.count_set]
    simp [hc]
  · exact Nat.le_refl _

theorem whites_paint_lt (s : Search σ) {v : Int} {c : Color} (hc : c ≠ .white)
    (hv : 0 ≤ v ∧ v < s.order) (hw : s.color v = .white) :
    (s.paint v c).whites < s.whites := by
  have hlt : v.toNat < s.colors.size := by
    have := hv.2
    unfold order at this
    omega
  have hat : s.colors[v.toNat] = .white := by
    simpa [color, Array.getD, hlt] using hw
  have hpos : 0 < s.colors.count .white :=
    Array.count_pos_iff.mpr (hat ▸ Array.getElem_mem hlt)
  unfold whites paint Array.setIfInBounds
  rw [dif_pos hlt, Array.count_set]
  simp only [hat, beq_self_eq_true, if_true, beq_iff_eq, hc, if_false]
  omega

@[simp] theorem colors_announce (hook : Option (Hook σ)) (v : Int) (s : Search σ) :
    (announce hook v s).2.colors = s.colors := by
  cases hook <;> rfl

@[simp] theorem whites_announce (hook : Option (Hook σ)) (v : Int) (s : Search σ) :
    (announce hook v s).2.whites = s.whites := by
  simp [whites]

/-- Whatever comes of a discovery, no vertex turns white. -/
theorem whites_discover_le (t : Task σ) (v : Int) (s : Search σ) :
    (discover t v s).2.whites ≤ s.whites := by
  unfold discover
  split
  · exact Nat.le_refl _
  · have h := whites_announce t.options.onVisit v (s.paint v .gray)
    split <;> simp_all [whites_paint_le s v (c := .gray) (by decide)]

/-- **A discovered vertex is no longer white**: discovering a white vertex takes
one white vertex away. -/
theorem whites_discover_lt (t : Task σ) {v : Int} {s r : Search σ} {us : List Int}
    (hv : 0 ≤ v ∧ v < s.order) (hw : s.color v = .white) (h : discover t v s = (.ok us, r)) :
    r.whites < s.whites := by
  have hlt := whites_paint_lt s (c := .gray) (by decide) hv hw
  have ha := whites_announce t.options.onVisit v (s.paint v .gray)
  unfold discover at h
  split at h
  · simp at h
  · split at h
    · simp at h
    · simp_all

/-- Finishing a vertex makes none white. -/
theorem whites_finish_le (t : Task σ) (v : Int) (s : Search σ) :
    (finish t v s).2.whites ≤ s.whites := by
  have h := whites_announce t.options.onExit v s
  unfold finish
  split
  · simp_all
  · rename_i r hr
    rw [hr] at h
    calc (r.retire v).whites
        = (r.paint v .black).whites := rfl
      _ ≤ r.whites := whites_paint_le r v (by decide)
      _ = s.whites := h

/-- An edge calls for a descent only into a white vertex of the search. -/
theorem white_of_examine {t : Task σ} {v u : Int} {s : Search σ}
    (h : examine t v u s = .ok true) : (0 ≤ u ∧ u < s.order) ∧ s.color u = .white := by
  unfold examine at h
  split at h
  · rename_i hu
    refine ⟨hu, ?_⟩
    split at h
    · assumption
    · split at h <;> simp at h
    · simp at h
  · simp at h

end Search

end TopologicalOrder
