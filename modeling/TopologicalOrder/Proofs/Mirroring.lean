import Mathlib
import TopologicalOrder.Proofs.Observation
import TopologicalOrder.Proofs.TopologicalSort

/-!
# A sort mirrors its search

A sort is a search whose answer is turned round, and it is turned round in place. Nothing but
the way in which the two places move keeps them inside the array, so that is said of the moves
themselves: `exchanges` lists them as integers, without an array, and each of them stays between
the two places it started from (`mem_exchanges`). Made one after the other, with both places
checked each time, they never fail, and what they come to is the reversed array
(`foldlM_exchange?`).

The reversed array is the mirror image of the array (`Mirrors`), so turning it round twice
restores it, and the order that a sort returns is the mirror image of the finish order. Failures
and the calls of the client are not touched at all (`reversal_mirrors_search`).
-/

namespace TopologicalOrder

variable {α σ : Type}

/-! ## The exchanges of a reversal -/

/-- **The exchanges that are made between two places**, the outer one first, while the places
move towards each other. -/
def exchanges (i j : Int) : List (Int × Int) :=
  if i < j then (i, j) :: exchanges (i + 1) (j - 1) else []
termination_by (j - i).toNat

/-- **Every exchange is one of two places between those it started from**, the smaller first. -/
theorem mem_exchanges {i j : Int} {p : Int × Int} (h : p ∈ exchanges i j) :
    i ≤ p.1 ∧ p.1 < p.2 ∧ p.2 ≤ j := by
  induction i, j using exchanges.induct with
  | case1 i j hlt ih =>
    rw [exchanges, if_pos hlt] at h
    rcases List.mem_cons.mp h with rfl | hrest
    · exact ⟨le_refl _, hlt, le_refl _⟩
    · obtain ⟨hi, hp, hj⟩ := ih hrest
      exact ⟨by omega, hp, by omega⟩
  | case2 i j hge =>
    rw [exchanges, if_neg hge] at h
    exact absurd h List.not_mem_nil

/-- **An exchange that fails unless both places lie in the array.** -/
def exchange? (xs : Array α) (p : Int × Int) : Option (Array α) :=
  if h : (0 ≤ p.1 ∧ p.1 < xs.size) ∧ 0 ≤ p.2 ∧ p.2 < xs.size then
    some (xs.swap p.1.toNat p.2.toNat (by omega) (by omega))
  else none

theorem exchange?_of_lt {xs : Array α} {i j : Nat} (hi : i < xs.size) (hj : j < xs.size) :
    exchange? xs (i, j) = some (xs.swap i j hi hj) := by
  unfold exchange?
  rw [dif_pos ⟨⟨Int.natCast_nonneg i, Int.ofNat_lt.mpr hi⟩,
    Int.natCast_nonneg j, Int.ofNat_lt.mpr hj⟩]
  rfl

/-- **The exchanges between two places of an array never fail**, and they are what the reversal
of the window between the places does. -/
theorem foldlM_exchange? (xs : Array α) (i j : Nat) (hj : i < j → j < xs.size) :
    (exchanges i j).foldlM exchange? xs = some (reverseBetween xs i j hj) := by
  induction xs, i, j, hj using reverseBetween.induct with
  | case1 xs i j hj hlt ih =>
    have hinner : exchanges ((i : Int) + 1) ((j : Int) - 1) =
        exchanges ((i + 1 : Nat) : Int) ((j - 1 : Nat) : Int) := by
      congr 1
      omega
    rw [exchanges, if_pos (Int.ofNat_lt.mpr hlt), hinner, List.foldlM_cons,
      exchange?_of_lt (hlt.trans (hj hlt)) (hj hlt), reverseBetween, dif_pos hlt]
    exact ih
  | case2 xs i j hj hge =>
    rw [exchanges, if_neg (fun hlt => hge (Int.ofNat_lt.mp hlt)), reverseBetween, dif_neg hge]
    rfl

/-- The exchanges that turn a whole array round. In an empty array the second place stands before
the first one, and there is nothing to exchange. -/
theorem foldlM_exchange?_eq_reverse (xs : Array α) :
    (exchanges 0 (xs.size - 1)).foldlM exchange? xs = some (reverse xs) := by
  unfold reverse
  rw [← foldlM_exchange?]
  rcases Nat.eq_zero_or_pos xs.size with hzero | hpos
  · rw [hzero, exchanges, if_neg (by decide), exchanges, if_neg (by decide)]
  · rw [Int.natCast_sub hpos]
    rfl

/-! ## Mirror images -/

/-- **An array that is another one read backwards**, place by place. -/
def Mirrors (ys xs : Array α) : Prop :=
  ys.size = xs.size ∧ ∀ i < xs.size, ys[i]? = xs[xs.size - 1 - i]?

theorem mirrors_reverse (xs : Array α) : Mirrors (reverse xs) xs := by
  unfold reverse
  refine ⟨size_reverseBetween xs 0 (xs.size - 1) _, fun i hi => ?_⟩
  rw [getElem?_reverseBetween, if_pos (by omega), Nat.zero_add]

theorem reverse_reverse (xs : Array α) : reverse (reverse xs) = xs := by
  refine Array.toList_inj.mp ?_
  rw [toList_reverse, toList_reverse, List.reverse_reverse]

/-! ## The sort and the search -/

/-- A sort leaves its client as the search does. -/
theorem snd_topologicalSort (g : Option Successors) (n : Int) (o : Options σ) (c : σ) :
    (topologicalSort g n o c).2 = (finishOrder g n o c).2 := by
  unfold topologicalSort
  cases finishOrder g n o c with
  | mk answer c' => cases answer <;> rfl

/-- **A reversal mirrors its array, and a sort mirrors its search.** Whatever an array holds and
however long it is, the exchanges that turn it round are all of places of the array. Made one
after the other they give the reversed array: it holds at each place what stood as far from the
other end, and turning it round again restores the array. So a sort succeeds exactly if the search
does, whatever the graph, the number of vertices, the options and the client, and its order is the
mirror image of the finish order. It fails exactly if the search does, with the same error, and in
either case its client is left in the same state and has seen the same calls, which are those of
the search itself. -/
theorem reversal_mirrors_search (g : Option Successors) (n : Int) (o : Options σ) (c : σ) :
    (∀ (α : Type) (xs : Array α),
      (∀ p ∈ exchanges 0 (xs.size - 1),
        (0 ≤ p.1 ∧ p.1 < xs.size) ∧ 0 ≤ p.2 ∧ p.2 < xs.size) ∧
      (exchanges 0 (xs.size - 1)).foldlM exchange? xs = some (reverse xs) ∧
      Mirrors (reverse xs) xs ∧ (reverse xs).toList = xs.toList.reverse ∧
      reverse (reverse xs) = xs) ∧
    ((∀ order, (finishOrder g n o c).1 = .ok order →
        ∃ sorted, (topologicalSort g n o c).1 = .ok sorted ∧ Mirrors sorted order) ∧
      (∀ sorted, (topologicalSort g n o c).1 = .ok sorted →
        ∃ order, (finishOrder g n o c).1 = .ok order ∧ Mirrors sorted order) ∧
      ∀ e, (topologicalSort g n o c).1 = .error e ↔ (finishOrder g n o c).1 = .error e) ∧
    (topologicalSort g n o.recorded (c, [])).2 = (finishOrder g n o.recorded (c, [])).2 ∧
    topologicalSort g n o c = Prod.map id Prod.fst (topologicalSort g n o.recorded (c, [])) ∧
    finishOrder g n o c = Prod.map id Prod.fst (finishOrder g n o.recorded (c, [])) := by
  refine ⟨fun α xs => ⟨fun p hp => ?_, foldlM_exchange?_eq_reverse xs, mirrors_reverse xs,
    toList_reverse xs, reverse_reverse xs⟩, ?_, snd_topologicalSort g n o.recorded (c, []),
    topologicalSort_recorded g n o c [], finishOrder_recorded g n o c []⟩
  · obtain ⟨hfirst, hlt, hlast⟩ := mem_exchanges hp
    exact ⟨⟨hfirst, by omega⟩, by omega, by omega⟩
  · rw [fst_topologicalSort]
    cases (finishOrder g n o c).1 with
    | error e => exact ⟨nofun, nofun, fun _ => Iff.rfl⟩
    | ok xs =>
      refine ⟨fun order h => ?_, fun sorted h => ?_, fun e => iff_of_false nofun nofun⟩
      · obtain rfl := Except.ok.inj h
        exact ⟨reverse xs, rfl, mirrors_reverse xs⟩
      · obtain rfl := Except.ok.inj h
        exact ⟨xs, rfl, mirrors_reverse xs⟩

end TopologicalOrder
