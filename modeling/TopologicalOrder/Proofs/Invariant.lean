import Mathlib.Data.List.Nodup
import TopologicalOrder.Proofs.Moves

/-!
# The invariant of a depth-first search

Two facts carry everything that is proved of a search. The first is about its
state (`Search.Coherent`): the gray vertices are the current path, the black ones
are the finished ones, each listed once, and the edges of a finished vertex are
*settled*. The second is about its stack (`Machine.Stacked`): each frame belongs
to a successor of the frame below it, and what a frame has examined is no longer
white.

An edge is settled when its target is listed before its source. A target that was
on the current path when the source was finished cannot be; it is allowed only
if the search does not look for cycles, and then the edge leads back along a path
to its own source. That disjunction, stated once for every edge of a finished
vertex, is what remains of a topological order on a graph with cycles.

The invariant holds of an empty stack before the search and is kept by every move
(`Machine.Invariant.move`).
-/

namespace TopologicalOrder

variable {σ : Type} {t : Task σ} {n : Nat}

/-! ## The state -/

namespace Search

variable {s r : Search σ} {path : List Int} {u v : Int}

/-- **What has become of the edge from the finished vertex `v` to `u`**: its target
has been discovered and is listed before `v`, or else the search does not look
for cycles and the edge closes one. -/
structure Settled (t : Task σ) (n : Nat) (s : Search σ) (v u : Int) : Prop where
  /-- The target is a vertex. -/
  isVertex : IsVertex n u
  /-- The target has been discovered. -/
  discovered : s.color u ≠ .white
  /-- The target is listed first, or it leads back to the source. -/
  before : [u, v].Sublist s.finished.toList ∨
    t.options.detectCycles = false ∧ t.successors.Reaches u v

/-- A settled edge stays settled while vertices are discovered and listed. -/
theorem Settled.mono (h : Settled t n s v u)
    (hlater : ∀ w, IsVertex n w → s.color w ≠ .white → r.color w ≠ .white)
    (hlist : s.finished.toList.Sublist r.finished.toList) : Settled t n r v u where
  isVertex := h.isVertex
  discovered := hlater u h.isVertex h.discovered
  before := h.before.imp_left fun hsub => hsub.trans hlist

/-- **The state of a search whose current path is `path`**, the last vertex first. -/
structure Coherent (t : Task σ) (n : Nat) (path : List Int) (s : Search σ) : Prop where
  /-- There is a colour for each vertex. -/
  order_eq : s.order = n
  /-- The path consists of vertices. -/
  isVertex : ∀ v ∈ path, IsVertex n v
  /-- The path meets no vertex twice. -/
  nodup_path : path.Nodup
  /-- The gray vertices are those on the path. -/
  gray_iff : ∀ v, IsVertex n v → (s.color v = .gray ↔ v ∈ path)
  /-- No vertex is finished twice. -/
  nodup_finished : s.finished.toList.Nodup
  /-- The black vertices are the finished ones. -/
  mem_finished : ∀ v, v ∈ s.finished.toList ↔ IsVertex n v ∧ s.color v = .black
  /-- The edges of finished vertices are settled. -/
  settled : ∀ v ∈ s.finished.toList, ∀ u ∈ t.successors v, Settled t n s v u

theorem Coherent.start (t : Task σ) (n : Nat) (c : σ) : Coherent t n [] (Search.start n c) where
  order_eq := order_start n c
  isVertex _ h := absurd h List.not_mem_nil
  nodup_path := List.nodup_nil
  gray_iff v _ := by simp
  nodup_finished := List.nodup_nil
  mem_finished v := by
    rw [color_start]
    simp [Search.start]
  settled v h := absurd h List.not_mem_nil

/-- The current path has no white vertex. -/
theorem Coherent.not_mem_path (h : Coherent t n path s) (hu : IsVertex n u)
    (hwhite : s.color u = .white) : u ∉ path := by
  intro hmem
  have hgray := (h.gray_iff u hu).mpr hmem
  rw [hwhite] at hgray
  exact nomatch hgray

/-- No vertex of the current path is finished. -/
theorem Coherent.not_mem_finished (h : Coherent t n path s) (hv : v ∈ path) :
    v ∉ s.finished.toList := by
  intro hmem
  obtain ⟨hvertex, hblack⟩ := (h.mem_finished v).mp hmem
  rw [(h.gray_iff v hvertex).mpr hv] at hblack
  exact nomatch hblack

/-- **Discovering a white vertex puts it on the path.** -/
theorem Coherent.discover {us : List Int} (h : Coherent t n path s) (hu : IsVertex n u)
    (hwhite : s.color u = .white) (hd : Search.discover t u s = (.ok us, r)) :
    Coherent t n (u :: path) r := by
  have hcolor : ∀ w, IsVertex n w → r.color w = if w = u then .gray else s.color w :=
    fun w hw => color_of_discover h.order_eq hu hd hw
  have hlater : ∀ w, IsVertex n w → s.color w ≠ .white → r.color w ≠ .white :=
    fun w hw => ne_white_of_discover h.order_eq hu hd hw
  have hfinished : r.finished = s.finished := finished_of_discover hd
  refine ⟨(order_of_discover hd).trans h.order_eq, ?_,
    List.nodup_cons.mpr ⟨h.not_mem_path hu hwhite, h.nodup_path⟩, ?_,
    by rw [hfinished]; exact h.nodup_finished, ?_, ?_⟩
  · intro v hv
    rcases List.mem_cons.mp hv with rfl | hv
    · exact hu
    · exact h.isVertex v hv
  · intro v hv
    rw [hcolor v hv, List.mem_cons]
    by_cases hvu : v = u
    · simp [hvu]
    · simpa [hvu] using h.gray_iff v hv
  · intro v
    rw [hfinished, h.mem_finished]
    refine and_congr_right (fun hv => ?_)
    rw [hcolor v hv]
    by_cases hvu : v = u
    · simp [hvu, hwhite]
    · simp [hvu]
  · intro v hv w hw
    rw [hfinished] at hv
    exact (h.settled v hv w hw).mono hlater (by rw [hfinished])

/-- **Finishing the last vertex of the path takes it off**, provided that its
successors are all discovered, and black unless they lead back to it. -/
theorem Coherent.finish (h : Coherent t n (v :: path) s)
    (hs : ∀ u ∈ t.successors v, IsVertex n u ∧ s.color u ≠ .white ∧
      (s.color u = .black ∨ t.options.detectCycles = false ∧ t.successors.Reaches u v))
    (hf : Search.finish t v s = (.ok (), r)) : Coherent t n path r := by
  have hv : IsVertex n v := h.isVertex v List.mem_cons_self
  have hcolor : ∀ w, IsVertex n w → r.color w = if w = v then .black else s.color w :=
    fun w hw => color_of_finish h.order_eq hv hf hw
  have hlater : ∀ w, IsVertex n w → s.color w ≠ .white → r.color w ≠ .white :=
    fun w hw => ne_white_of_finish h.order_eq hv hf hw
  have hfinished : r.finished.toList = s.finished.toList ++ [v] := finished_of_finish hf
  refine ⟨(order_of_finish hf).trans h.order_eq,
    fun w hw => h.isVertex w (List.mem_cons_of_mem v hw), (List.nodup_cons.mp h.nodup_path).2,
    ?_, ?_, ?_, ?_⟩
  · intro w hw
    rw [hcolor w hw]
    by_cases hwv : w = v
    · subst hwv
      simpa using (List.nodup_cons.mp h.nodup_path).1
    · rw [if_neg hwv, h.gray_iff w hw, List.mem_cons]
      exact or_iff_right hwv
  · rw [hfinished, ← List.concat_eq_append]
    exact h.nodup_finished.concat (h.not_mem_finished List.mem_cons_self)
  · intro w
    rw [hfinished, List.mem_append, List.mem_singleton, h.mem_finished]
    by_cases hwv : w = v
    · subst hwv
      simp [hv, hcolor w hv]
    · constructor
      · rintro (⟨hw, hblack⟩ | hw)
        · exact ⟨hw, by rw [hcolor w hw, if_neg hwv]; exact hblack⟩
        · exact absurd hw hwv
      · rintro ⟨hw, hblack⟩
        rw [hcolor w hw, if_neg hwv] at hblack
        exact Or.inl ⟨hw, hblack⟩
  · intro w hw u hu
    rw [hfinished, List.mem_append, List.mem_singleton] at hw
    rcases hw with hw | rfl
    · refine (h.settled w hw u hu).mono hlater ?_
      rw [hfinished]
      exact List.sublist_append_left _ _
    · -- the edges of the vertex itself: a black target is listed already
      obtain ⟨hvertex, hdiscovered, hcase⟩ := hs u hu
      refine ⟨hvertex, hlater u hvertex hdiscovered, hcase.imp_left (fun hblack => ?_)⟩
      rw [hfinished]
      have hmem : u ∈ s.finished.toList := (h.mem_finished u).mpr ⟨hvertex, hblack⟩
      exact (List.singleton_sublist.mpr hmem).append (List.Sublist.refl [w])

end Search

/-! ## The stack -/

namespace Machine

variable {s r : Search σ} {above : List Int} {f : Frame} {fs : List Frame} {u v : Int}

/-- **A frame of the stack**, below frames of the vertices `above`, the nearest one
first. -/
structure FrameOk (t : Task σ) (n : Nat) (s : Search σ) (above : List Int) (f : Frame) :
    Prop where
  /-- The frame holds the successors of its vertex. -/
  successors_eq : f.successors.toList = t.successors f.vertex
  /-- The frame above belongs to the successor examined last. -/
  getLast?_examined : ∀ u ∈ above.head?, f.examined.getLast? = some u
  /-- What has been examined is a vertex, and not white any more. -/
  examined : ∀ u ∈ f.examined, IsVertex n u ∧ s.color u ≠ .white
  /-- A search for cycles has examined nothing gray but what is above. -/
  examined_black : t.options.detectCycles = true →
    ∀ u ∈ f.examined, s.color u = .black ∨ u ∈ above

/-- **The frames of a stack**, the top first, that lie below frames of the vertices
`above`. -/
def Stacked (t : Task σ) (n : Nat) (s : Search σ) : List Int → List Frame → Prop
  | _, [] => True
  | above, f :: fs => FrameOk t n s above f ∧ Stacked t n s (f.vertex :: above) fs

/-- The frames below are untouched by what happens at the top: it is enough that no
vertex turns white, that a vertex which leaves the stack turns black, and that
no other frame takes the place next to them. -/
theorem Stacked.mono {above' : List Int}
    (hwhite : ∀ u, IsVertex n u → s.color u ≠ .white → r.color u ≠ .white)
    (hblack : ∀ u, IsVertex n u → s.color u = .black ∨ u ∈ above →
      r.color u = .black ∨ u ∈ above')
    (hhead : ∀ u ∈ above'.head?, u ∈ above.head?) (h : Stacked t n s above fs) :
    Stacked t n r above' fs := by
  -- further down the vertex of each frame joins those above, on both sides alike
  induction fs generalizing above above' with
  | nil => trivial
  | cons f fs ih =>
    obtain ⟨hf, hfs⟩ := h
    refine ⟨⟨hf.successors_eq, fun u hu => hf.getLast?_examined u (hhead u hu),
      fun u hu => ?_, fun hd u hu => ?_⟩, ih (fun u hu hcase => ?_) (fun u hu => ?_) hfs⟩
    · obtain ⟨hvertex, hdiscovered⟩ := hf.examined u hu
      exact ⟨hvertex, hwhite u hvertex hdiscovered⟩
    · exact hblack u (hf.examined u hu).1 (hf.examined_black hd u hu)
    · rw [List.mem_cons] at hcase ⊢
      rcases hcase with hc | rfl | hmem
      · exact (hblack u hu (Or.inl hc)).imp_right Or.inr
      · exact Or.inr (Or.inl rfl)
      · exact (hblack u hu (Or.inr hmem)).imp_right Or.inr
    · exact hu

/-- **From every vertex of the stack a path leads to the vertices above it.** -/
theorem Stacked.reaches {w : Int} (h : Stacked t n s (w :: above) fs)
    (hv : v ∈ fs.map Frame.vertex) : t.successors.Reaches v w := by
  induction fs generalizing w above with
  | nil => exact absurd hv List.not_mem_nil
  | cons f fs ih =>
    obtain ⟨hf, hfs⟩ := h
    have hlast : f.examined.getLast? = some w := hf.getLast?_examined w rfl
    have hedge : w ∈ t.successors f.vertex := by
      rw [← hf.successors_eq]
      exact Frame.mem_successors_of_mem_examined (List.mem_of_getLast? hlast)
    rcases List.mem_cons.mp hv with rfl | hv
    · exact Successors.Reaches.of_mem hedge
    · exact (ih hfs hv).trans (Successors.Reaches.of_mem hedge)

/-- A frame has one more successor examined, and the search may have gone on since,
if only into that successor. -/
theorem FrameOk.advance {above' : List Int} (hf : FrameOk t n s above f)
    (hnext : f.successors[f.next]? = some u)
    (hu : IsVertex n u) (hne : r.color u ≠ .white)
    (hcase : t.options.detectCycles = true → r.color u = .black ∨ u ∈ above')
    (hhead : ∀ w ∈ above'.head?, w = u)
    (hwhite : ∀ w, IsVertex n w → s.color w ≠ .white → r.color w ≠ .white)
    (hblack : ∀ w, IsVertex n w → s.color w = .black ∨ w ∈ above →
      r.color w = .black ∨ w ∈ above') :
    FrameOk t n r above' f.advance := by
  have hexamined : f.advance.examined = f.examined ++ [u] := Frame.examined_advance hnext
  refine ⟨hf.successors_eq, fun w hw => ?_, fun w hw => ?_, fun hd w hw => ?_⟩
  · rw [hexamined, hhead w hw]
    exact List.getLast?_concat
  · rw [hexamined, List.mem_append, List.mem_singleton] at hw
    rcases hw with hw | rfl
    · obtain ⟨hvertex, hdiscovered⟩ := hf.examined w hw
      exact ⟨hvertex, hwhite w hvertex hdiscovered⟩
    · exact ⟨hu, hne⟩
  · rw [hexamined, List.mem_append, List.mem_singleton] at hw
    rcases hw with hw | rfl
    · exact hblack w (hf.examined w hw).1 (hf.examined_black hd w hw)
    · exact hcase hd

theorem FrameOk.enter {us : List Int} (h : Search.discover t v s = (.ok us, r)) :
    FrameOk t n r [] (Frame.enter v us) where
  successors_eq := (Search.discover_eq_ok.mp h).2.2
  getLast?_examined _ hu := nomatch hu
  examined _ hu := absurd hu List.not_mem_nil
  examined_black _ _ hu := absurd hu List.not_mem_nil

/-! ## The invariant -/

/-- The vertices of the stack, the top first. -/
def path (m : Machine σ) : List Int := m.frames.map Frame.vertex

/-- **The invariant of a search on a stack.** -/
structure Invariant (t : Task σ) (n : Nat) (m : Machine σ) : Prop where
  /-- The state agrees with the path. -/
  coherent : m.search.Coherent t n m.path
  /-- The frames agree with the state. -/
  stacked : Stacked t n m.search [] m.frames

variable {m m' : Machine σ}

/-- From every vertex of the stack a path leads to the top. -/
theorem Invariant.reaches_top (h : Invariant t n ⟨f :: fs, s⟩)
    (hv : v ∈ (f :: fs).map Frame.vertex) : t.successors.Reaches v f.vertex := by
  rcases List.mem_cons.mp hv with rfl | hv
  · exact Successors.Reaches.refl _ _
  · exact h.stacked.2.reaches hv

theorem Invariant.start (t : Task σ) (n : Nat) (c : σ) :
    Invariant t n ⟨[], Search.start n c⟩ :=
  ⟨Search.Coherent.start t n c, trivial⟩

/-- A fresh frame on an empty stack. -/
theorem Invariant.enter {us : List Int} (h : Invariant t n ⟨[], s⟩) (hv : IsVertex n v)
    (hwhite : s.color v = .white) (hd : Search.discover t v s = (.ok us, r)) :
    Invariant t n ⟨[Frame.enter v us], r⟩ :=
  ⟨h.coherent.discover hv hwhite hd, FrameOk.enter hd, trivial⟩

theorem Invariant.pass (h : Invariant t n ⟨f :: fs, s⟩)
    (hnext : f.successors[f.next]? = some u)
    (hexamine : Search.examine t f.vertex u s = .ok false) :
    Invariant t n ⟨f.advance :: fs, s⟩ := by
  obtain ⟨hu, hcolor⟩ := Search.examine_eq_pass.mp hexamine
  rw [h.coherent.order_eq] at hu
  have hne : s.color u ≠ .white := by
    rcases hcolor with hc | ⟨hc, -⟩ <;> rw [hc] <;> exact fun h => nomatch h
  -- a search for cycles does not pass a gray successor by
  have hcase : t.options.detectCycles = true → s.color u = .black ∨ u ∈ [] := by
    intro hd
    rcases hcolor with hc | ⟨-, hoff⟩
    · exact Or.inl hc
    · rw [hd] at hoff
      exact nomatch hoff
  exact ⟨h.coherent, h.stacked.1.advance hnext hu hne hcase (fun _ hw => nomatch hw)
    (fun _ _ hw => hw) (fun _ _ hw => hw), h.stacked.2⟩

theorem Invariant.descend {us : List Int} (h : Invariant t n ⟨f :: fs, s⟩)
    (hnext : f.successors[f.next]? = some u)
    (hexamine : Search.examine t f.vertex u s = .ok true)
    (hdiscover : Search.discover t u s = (.ok us, r)) :
    Invariant t n ⟨Frame.enter u us :: f.advance :: fs, r⟩ := by
  have horder := h.coherent.order_eq
  obtain ⟨hu, hwhite⟩ := Search.examine_eq_descend.mp hexamine
  rw [horder] at hu
  have hlater : ∀ w, IsVertex n w → s.color w ≠ .white → r.color w ≠ .white :=
    fun w hw => Search.ne_white_of_discover horder hu hdiscover hw
  -- only `u` changes its colour, and `u` was white
  have hblack : ∀ w, IsVertex n w → s.color w = .black → r.color w = .black := by
    intro w hw hb
    have hwu : w ≠ u := fun heq => by
      rw [heq, hwhite] at hb
      exact nomatch hb
    rw [Search.color_of_discover horder hu hdiscover hw, if_neg hwu]
    exact hb
  have hgray : r.color u ≠ .white := by
    rw [Search.color_of_discover horder hu hdiscover hu, if_pos rfl]
    exact fun hc => nomatch hc
  refine ⟨h.coherent.discover hu hwhite hdiscover, FrameOk.enter hdiscover, ?_, ?_⟩
  · refine h.stacked.1.advance hnext hu hgray (fun _ => Or.inr List.mem_cons_self) ?_ hlater ?_
    · intro w hw
      exact (Option.some.inj hw).symm
    · rintro w hw (hb | hb)
      · exact Or.inl (hblack w hw hb)
      · exact absurd hb List.not_mem_nil
  · refine h.stacked.2.mono hlater ?_ ?_
    · rintro w hw (hb | hb)
      · exact Or.inl (hblack w hw hb)
      · exact Or.inr (List.mem_append_left [u] hb)
    · exact fun _ hw => hw

theorem Invariant.leave (h : Invariant t n ⟨f :: fs, s⟩) (hdone : f.successors.size ≤ f.next)
    (hfinish : Search.finish t f.vertex s = (.ok (), r)) : Invariant t n ⟨fs, r⟩ := by
  have horder := h.coherent.order_eq
  have hv : IsVertex n f.vertex := h.coherent.isVertex f.vertex List.mem_cons_self
  have hall : f.examined = t.successors f.vertex :=
    (Frame.examined_eq_successors hdone).trans h.stacked.1.successors_eq
  refine ⟨h.coherent.finish (fun u hu => ?_) hfinish, h.stacked.2.mono ?_ ?_ ?_⟩
  · -- all successors have been examined, and the gray ones are on the stack
    rw [← hall] at hu
    obtain ⟨hvertex, hdiscovered⟩ := h.stacked.1.examined u hu
    refine ⟨hvertex, hdiscovered, ?_⟩
    by_cases hblack : s.color u = .black
    · exact Or.inl hblack
    · have hgray : s.color u = .gray := by
        cases hc : s.color u with
        | white => exact absurd hc hdiscovered
        | gray => rfl
        | black => exact absurd hc hblack
      refine Or.inr ⟨?_, h.reaches_top ((h.coherent.gray_iff u hvertex).mp hgray)⟩
      rw [Bool.eq_false_iff]
      intro hd
      rcases h.stacked.1.examined_black hd u hu with hb | hb
      · exact hblack hb
      · exact absurd hb List.not_mem_nil
  · intro w hw
    exact Search.ne_white_of_finish horder hv hfinish hw
  · intro w hw hcase
    rw [Search.color_of_finish horder hv hfinish hw]
    rcases hcase with hb | hb
    · rw [hb, ite_self]
      exact Or.inl rfl
    · rw [if_pos (List.mem_singleton.mp hb)]
      exact Or.inl rfl
  · exact fun _ hw => nomatch hw

/-- **Every move keeps the invariant.** -/
theorem Invariant.move (hm : Move t m m') (h : Invariant t n m) : Invariant t n m' := by
  cases hm with
  | pass hnext hexamine => exact h.pass hnext hexamine
  | descend hnext hexamine hdiscover => exact h.descend hnext hexamine hdiscover
  | leave hdone hfinish => exact h.leave hdone hfinish

end Machine

end TopologicalOrder
