import TopologicalOrder.Proofs.Moves

/-!
# The two strategies

A stack of frames stands for the calls that the recursive strategy would have
pending: the top frame is the call that runs, and each frame below it waits to go
on with the rest of its own list. `Machine.resume` is that reading, the frames
explored one after the other by recursion, a failure ending all of them at once.

Each move of the stack leaves its reading as it was (`Machine.Move.resume_eq`),
and a step that fails gives the failure of its reading (`Machine.Halt.resume_eq`).
So the loop computes the reading of the stack it starts from
(`Machine.run_eq_resume`), and for the stack of one fresh frame that is the
recursive visit (`Search.walk_eq_visit`). Whatever strategy is chosen, a vertex is
therefore visited as it is on a stack (`Search.enter_eq_walk`): what holds of the
stack holds of the recursion.
-/

namespace TopologicalOrder

variable {σ : Type}

/-! ## The recursion, equation by equation

`Search.explore` answers together with a fact about its answer, which the
recursion needs to end. The four equations drop the fact. -/

namespace Search

variable {t : Task σ} {s r q : Search σ} {u v : Int} {us ws : List Int} {e : SortError}

theorem explore_nil (t : Task σ) (v : Int) (s : Search σ) :
    (explore t v [] s).val = finish t v s := by
  rw [explore]

theorem explore_refuse (h : examine t v u s = .error e) :
    (explore t v (u :: us) s).val = (.error e, s) := by
  rw [explore]
  split <;> simp_all

theorem explore_pass (h : examine t v u s = .ok false) :
    (explore t v (u :: us) s).val = (explore t v us s).val := by
  rw [explore]
  split <;> simp_all

theorem explore_undiscovered (h : examine t v u s = .ok true)
    (hd : discover t u s = (.error e, r)) :
    (explore t v (u :: us) s).val = (.error e, r) := by
  rw [explore]
  split
  · simp_all
  · simp_all
  · split <;> simp_all

theorem explore_descend (h : examine t v u s = .ok true)
    (hd : discover t u s = (.ok ws, r)) :
    (explore t v (u :: us) s).val =
      match (explore t u ws r).val with
      | (.error e, q) => (.error e, q)
      | (.ok (), q) => (explore t v us q).val := by
  rw [explore]
  split
  · simp_all
  · simp_all
  · split
    · simp_all
    · -- the branch binds the discovery once more
      rename_i ws' r' hd'
      obtain ⟨rfl, rfl⟩ : ws' = ws ∧ r' = r := by simpa [hd] using hd'.symm
      split <;> simp_all

end Search

/-! ## A stack read as pending calls -/

namespace Machine

variable {t : Task σ} {m m' : Machine σ} {s : Search σ} {e : SortError}

/-- **Goes on with the calls that the frames stand for**, the top one first. -/
def resume (t : Task σ) : List Frame → Search σ → Except SortError Unit × Search σ
  | [], s => (.ok (), s)
  | f :: fs, s =>
    match (Search.explore t f.vertex f.remaining s).val with
    | (.error e, r) => (.error e, r)
    | (.ok (), r) => resume t fs r

/-- **A move leaves the pending calls as they were.** -/
theorem Move.resume_eq (h : Move t m m') :
    resume t m.frames m.search = resume t m'.frames m'.search := by
  cases h with
  | pass hnext hexamine =>
    simp only [resume, Frame.remaining_eq_cons hnext, Search.explore_pass hexamine,
      Frame.vertex_advance]
  | @descend f fs s r u us hnext hexamine hdiscover =>
    simp only [resume, Frame.remaining_eq_cons hnext,
      Search.explore_descend hexamine hdiscover, Frame.vertex_advance, Frame.vertex_enter,
      Frame.remaining_enter]
    -- the call for `u` runs first on both sides, and its failure ends both
    cases (Search.explore t u us r).val with
    | mk out q => cases out <;> rfl
  | leave hdone hfinish =>
    simp only [resume, Frame.remaining_eq_nil hdone, Search.explore_nil, hfinish]

/-- **A step that fails fails as the pending calls do.** -/
theorem Halt.resume_eq (h : Halt t m e s) : resume t m.frames m.search = (.error e, s) := by
  cases h with
  | refuse hnext hexamine =>
    simp only [resume, Frame.remaining_eq_cons hnext, Search.explore_refuse hexamine]
  | descend hnext hexamine hdiscover =>
    simp only [resume, Frame.remaining_eq_cons hnext,
      Search.explore_undiscovered hexamine hdiscover]
  | leave hdone hfinish =>
    simp only [resume, Frame.remaining_eq_nil hdone, Search.explore_nil, hfinish]

theorem Moves.resume_eq (h : Moves t m m') :
    resume t m.frames m.search = resume t m'.frames m'.search := by
  induction h with
  | refl => rfl
  | tail _ hlast ih => exact ih.trans hlast.resume_eq

/-- **The loop computes the pending calls.** -/
theorem run_eq_resume (t : Task σ) (m : Machine σ) : run t m = resume t m.frames m.search := by
  cases hrun : run t m with
  | mk out s =>
    cases out with
    | error e =>
      obtain ⟨m', hmoves, hhalt⟩ := halt_of_run_eq_error hrun
      rw [hmoves.resume_eq, hhalt.resume_eq]
    | ok =>
      rw [(moves_of_run_eq_ok hrun).resume_eq]
      rfl

end Machine

namespace Search

/-- **Both strategies visit a vertex alike.** -/
theorem walk_eq_visit (t : Task σ) (v : Int) (s : Search σ) : walk t v s = visit t v s := by
  unfold walk visit
  cases discover t v s with
  | mk found r =>
    cases found with
    | error e => rfl
    | ok us =>
      show Machine.run t ⟨[Frame.enter v us], r⟩ = (explore t v us r).val
      rw [Machine.run_eq_resume]
      simp only [Machine.resume, Frame.vertex_enter, Frame.remaining_enter]
      cases (explore t v us r).val with
      | mk out q => cases out <;> rfl

/-- Whatever the client chose, a vertex is visited as it is on a stack. -/
theorem enter_eq_walk (t : Task σ) (v : Int) (s : Search σ) : enter t v s = walk t v s := by
  unfold enter
  cases t.options.strategy with
  | recursive => exact (walk_eq_visit t v s).symm
  | stack => rfl

end Search

end TopologicalOrder
