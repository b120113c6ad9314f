import TopologicalOrder.Random.Generator

/-!
# Random numbers from draws

A `Source` is drawn from: a draw takes its state and gives a number below `2 ^ 63`
and the next state. From draws are made a number below a bound, a permutation and
a float from zero up to one, and so a generator (`Source.generator`).

A number below a bound is uniform only if some draws are thrown away and made
again, as often as it takes. That comes to an end because a zero is never thrown
away, and a source comes to a zero sooner or later, wherever it starts.

Two sources are at hand. `playback` answers with a given list of numbers and with
zeros after its end; `splitMix` mixes the bits of a counter.
-/

namespace TopologicalOrder.Random

variable {γ : Type}

/-- The state after `k` draws. -/
def skip (draw : γ → Nat × γ) : Nat → γ → γ
  | 0, s => s
  | k + 1, s => skip draw k (draw s).2

/-- **What is drawn from**, with states of type `γ`. -/
structure Source (γ : Type) where
  /-- The next number, and the next state. -/
  draw : γ → Nat × γ
  /-- Wherever it starts, a zero is drawn in the end. -/
  exists_zero : ∀ s, ∃ k, (draw (skip draw k s)).1 = 0

/-! ## Drawing again -/

/-- A state from which a source is on its way to a zero. -/
structure Pending (src : Source γ) where
  /-- The state. -/
  state : γ

/-- **The way to the next zero ends.** -/
theorem Pending.wellFounded (src : Source γ) : WellFounded fun t s : Pending src =>
    (src.draw s.state).1 ≠ 0 ∧ t.state = (src.draw s.state).2 := by
  refine ⟨fun s => ?_⟩
  obtain ⟨k, hk⟩ := src.exists_zero s.state
  induction k generalizing s with
  | zero => exact ⟨s, fun t ht => absurd hk ht.1⟩
  | succ k ih => exact ⟨s, fun t ht => ih t (by rw [ht.2]; exact hk)⟩

instance (src : Source γ) : WellFoundedRelation (Pending src) := ⟨_, Pending.wellFounded src⟩

/-- **Draws until `accept` holds**, as it does for zero. -/
def redraw (src : Source γ) (accept : Nat → Bool) (hzero : accept 0 = true) (s : γ) : Nat × γ :=
  match _h : src.draw s with
  | (x, s') => if accept x then (x, s') else redraw src accept hzero s'
termination_by (⟨s⟩ : Pending src)
decreasing_by
  rename_i hrefused
  refine ⟨fun h => hrefused ?_, ?_⟩
  · rw [show x = 0 by rw [← h, _h]]
    exact hzero
  · rw [_h]

/-- A draw that is accepted is the only one. -/
theorem redraw_of_accept {src : Source γ} {accept : Nat → Bool} {hzero : accept 0 = true} {s : γ}
    (h : accept (src.draw s).1 = true) : redraw src accept hzero s = src.draw s := by
  rw [redraw]
  exact if_pos h

/-- The upper 31 bits of a number below `2 ^ 63`. -/
def upperBits (x : Nat) : Nat := x >>> 32

/-- Whether a positive number is a power of two. -/
def isPowerOfTwo (n : Nat) : Bool := 1 <<< n.log2 = n

/-- **A number below `n`**, each equally likely. Draws in the last incomplete
block of length `n` are thrown away. -/
def below (src : Source γ) (n : Nat) (s : γ) : Nat × γ :=
  if isPowerOfTwo n then
    match src.draw s with
    | (x, s) => (upperBits x % n, s)
  else
    let last := (1 <<< 31) - 1 - (1 <<< 31) % n
    match redraw src (fun x => upperBits x ≤ last) (decide_eq_true (Nat.zero_le _)) s with
    | (x, s) => (upperBits x % n, s)

theorem below_lt (src : Source γ) {n : Nat} (hn : 0 < n) (s : γ) : (below src n s).1 < n := by
  unfold below
  split
  · exact Nat.mod_lt _ hn
  · exact Nat.mod_lt _ hn

/-! ## Permutations -/

/-- Puts `i` at a random place among the first `i + 1` places of a permutation of
the numbers below `i`, moving what stood there to the end. -/
def insertAtRandom (src : Source γ) (i : Nat) (ranks : Array Nat) (s : γ) : Array Nat × γ :=
  match below src (i + 1) s with
  | (j, s) => ((ranks.push (ranks.getD j i)).setIfInBounds j i, s)

/-- Extends a permutation of the numbers below `i` by the next `count` numbers. -/
def extend (src : Source γ) (i : Nat) (ranks : Array Nat) (s : γ) : Nat → Array Nat × γ
  | 0 => (ranks, s)
  | count + 1 =>
    match insertAtRandom src i ranks s with
    | (ranks, s) => extend src (i + 1) ranks s count

/-- **A permutation of the numbers below `n`.** -/
def permutation (src : Source γ) (n : Nat) (s : γ) : Array Nat × γ :=
  extend src 0 #[] s n

/-- **A number takes the place of another**, which moves to the end. -/
theorem perm_set_append {l : List Nat} {j : Nat} (hj : j < l.length) (i : Nat) :
    (l.set j i ++ [l[j]]).Perm (i :: l) := by
  have hsplit : l = l.take j ++ l[j] :: l.drop (j + 1) := by
    rw [← List.drop_eq_getElem_cons hj, List.take_append_drop]
  calc
    List.Perm _ (l[j] :: l.set j i) := List.perm_append_singleton _ _
    List.Perm _ (l[j] :: i :: (l.take j ++ l.drop (j + 1))) := by
      rw [List.set_eq_take_append_cons_drop, if_pos hj]
      exact List.perm_middle.cons _
    List.Perm _ (i :: l[j] :: (l.take j ++ l.drop (j + 1))) := List.Perm.swap _ _ _
    List.Perm _ (i :: l) := by
      refine List.Perm.cons i ?_
      conv => rhs; rw [hsplit]
      exact List.perm_middle.symm

/-- **One more number**: it takes the place of one that moves to the end, or the end itself. -/
theorem perm_range_succ {ranks : Array Nat} {i j : Nat} (h : ranks.toList.Perm (List.range i))
    (hj : j ≤ i) :
    ((ranks.push (ranks.getD j i)).setIfInBounds j i).toList.Perm (List.range (i + 1)) := by
  obtain ⟨l⟩ := ranks
  have hlength : l.length = i := h.length_eq.trans List.length_range
  have hlonger : (i :: l).Perm (List.range (i + 1)) := by
    rw [List.range_succ]
    exact (h.cons i).trans (List.perm_append_singleton i _).symm
  refine List.Perm.trans ?_ hlonger
  rw [Array.toList_setIfInBounds, Array.toList_push, Array.getD_eq_getD_getElem?,
    List.getElem?_toArray]
  rcases Nat.lt_or_eq_of_le hj with hlt | rfl
  · rw [← hlength] at hlt
    rw [List.getElem?_eq_getElem hlt, List.set_append_left _ _ hlt]
    exact perm_set_append hlt i
  · rw [List.getElem?_eq_none (Nat.le_of_eq hlength),
      List.set_append_right _ _ (Nat.le_of_eq hlength), hlength, Nat.sub_self]
    exact List.perm_append_singleton _ l

theorem perm_extend (src : Source γ) {i : Nat} {ranks : Array Nat} (s : γ)
    (h : ranks.toList.Perm (List.range i)) (count : Nat) :
    (extend src i ranks s count).1.toList.Perm (List.range (i + count)) := by
  induction count generalizing i ranks s with
  | zero => exact h
  | succ count ih =>
    rw [show i + (count + 1) = i + 1 + count by omega]
    exact ih _ (perm_range_succ h (Nat.lt_succ_iff.mp (below_lt src (Nat.succ_pos i) s)))

/-- **A random permutation is one**, whatever the draws. -/
theorem perm_permutation (src : Source γ) (n : Nat) (s : γ) :
    (permutation src n s).1.toList.Perm (List.range n) := by
  have h : (extend src 0 #[] s n).1.toList.Perm (List.range (0 + n)) :=
    perm_extend src s List.Perm.nil n
  rwa [Nat.zero_add] at h

/-! ## Floats -/

/-- A draw as a float; the largest draws are rounded to one. -/
def toUnit (x : Nat) : Float := x.toUInt64.toFloat / (1 <<< 63 : Nat).toUInt64.toFloat

/-- **A float from zero up to one**, one excluded: draws that are rounded to one are
thrown away. -/
def unit (src : Source γ) (s : γ) : Float × γ :=
  match redraw src (fun x => toUnit x != 1) (by decide +kernel) s with
  | (x, s) => (toUnit x, s)

theorem unit_of_ne_one {src : Source γ} {s : γ} (h : (toUnit (src.draw s).1 != 1) = true) :
    unit src s = (toUnit (src.draw s).1, (src.draw s).2) := by
  unfold unit
  rw [redraw_of_accept h]

/-- **The generator that draws from a source.** -/
def Source.generator (src : Source γ) : Generator γ where
  permutation := Random.permutation src
  unit := Random.unit src
  perm_range := perm_permutation src

/-! ## Sources -/

/-- The state of a source that answers with given numbers. -/
structure Playback where
  /-- The numbers that are left. -/
  values : List Nat
  /-- How many draws were made. -/
  draws : Nat := 0

/-- The next given number, and zero when none is left. -/
def Playback.draw (s : Playback) : Nat × Playback :=
  match s.values with
  | [] => (0, { s with draws := s.draws + 1 })
  | x :: xs => (x % (1 <<< 63), { values := xs, draws := s.draws + 1 })

/-- **The source that answers with given numbers**, and with zeros after them. -/
def playback : Source Playback where
  draw := Playback.draw
  exists_zero s := by
    obtain ⟨values, draws⟩ := s
    induction values generalizing draws with
    | nil => exact ⟨0, rfl⟩
    | cons x xs ih =>
      obtain ⟨k, hk⟩ := ih (draws + 1)
      exact ⟨k + 1, hk⟩

/-- The state of a source that mixes the bits of a counter. -/
structure SplitMix where
  /-- The counter. -/
  state : UInt64
  /-- How many draws were made. -/
  draws : Nat := 0

/-- Spreads each bit of a counter over the whole word. -/
def mix (z : UInt64) : UInt64 :=
  let z := (z ^^^ (z >>> 30)) * 0xbf58476d1ce4e5b9
  let z := (z ^^^ (z >>> 27)) * 0x94d049bb133111eb
  z ^^^ (z >>> 31)

/-- By how much the counter advances. -/
def SplitMix.stride : UInt64 := 0x9e3779b97f4a7c15

/-- Advances the counter and answers with the upper 63 bits of the mix. -/
def SplitMix.draw (s : SplitMix) : Nat × SplitMix :=
  let state := s.state + stride
  ((mix state >>> 1).toNat, { state := state, draws := s.draws + 1 })

theorem SplitMix.state_skip (k : Nat) (s : SplitMix) :
    (skip draw k s).state = s.state + UInt64.ofNat k * stride := by
  induction k generalizing s with
  | zero => simp [skip]
  | succ k ih =>
    rw [skip, ih]
    show s.state + stride + UInt64.ofNat k * stride = _
    rw [UInt64.ofNat_add]
    grind

/-- The inverse of the stride, which is odd. -/
def SplitMix.inverse : UInt64 := 0xf1de83e19937733d

/-- **The source that mixes the bits of a counter.** As the stride has an inverse, the counter
comes to every word, and with it to zero, whose mix is zero. -/
def splitMix : Source SplitMix where
  draw := SplitMix.draw
  exists_zero s := by
    -- so many draws are missing to the one for which the counter is zero
    let missing : UInt64 := (0 - s.state - SplitMix.stride) * SplitMix.inverse
    have hinverse : SplitMix.inverse * SplitMix.stride = 1 := by decide
    have hzero : (skip SplitMix.draw missing.toNat s).state + SplitMix.stride = 0 := by
      rw [SplitMix.state_skip, UInt64.ofNat_toNat, UInt64.mul_assoc, hinverse]
      grind
    refine ⟨missing.toNat, ?_⟩
    show (mix ((skip SplitMix.draw missing.toNat s).state + SplitMix.stride) >>> 1).toNat = 0
    rw [hzero]
    rfl

end TopologicalOrder.Random
