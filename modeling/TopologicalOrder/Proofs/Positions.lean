import Mathlib.Data.List.Nodup
import TopologicalOrder.Search.Reversal

/-!
# Positions in an order

An order is an array, and what it says is where things stand in it. `reverse`
works in place: it reverses the window between its two indices
(`getElem?_reverseBetween`), which is the whole array at the start, so the result
is the array read backwards (`toList_reverse`). `indexOf?` gives the first
position of an element.

`Precedes` compares the positions of two elements. In an array without
repetitions it holds of any two elements that occur in that order, wherever they
stand (`precedes_of_sublist`).
-/

namespace TopologicalOrder

variable {α : Type}

/-! ## Reversal -/

/-- **Exchanging the ends and moving inwards reverses the window.** -/
theorem getElem?_reverseBetween (xs : Array α) (i j : Nat) (hj : i < j → j < xs.size)
    (k : Nat) :
    (reverseBetween xs i j hj)[k]? = if i ≤ k ∧ k ≤ j then xs[i + j - k]? else xs[k]? := by
  induction xs, i, j, hj using reverseBetween.induct with
  | case1 xs i j hj h ih =>
    have hjs : j < xs.size := hj h
    have his : i < xs.size := Nat.lt_trans h hjs
    rw [reverseBetween, dif_pos h, ih, Array.getElem?_swap, Array.getElem?_swap]
    rcases Nat.lt_trichotomy i k with hik | rfl | hik
    · rcases Nat.lt_trichotomy k j with hkj | rfl | hkj
      · -- strictly inside, the inner window does the work
        rw [if_pos (by omega), if_neg (by omega), if_neg (by omega), if_pos (by omega)]
        congr 1
        omega
      · rw [if_neg (by omega), if_pos rfl, if_pos (by omega), Nat.add_sub_cancel]
        exact (Array.getElem?_eq_getElem his).symm
      · rw [if_neg (by omega), if_neg (by omega), if_neg (by omega), if_neg (by omega)]
    · rw [if_neg (by omega), if_neg (by omega), if_pos rfl, if_pos (by omega),
        Nat.add_sub_cancel_left]
      exact (Array.getElem?_eq_getElem hjs).symm
    · rw [if_neg (by omega), if_neg (by omega), if_neg (by omega), if_neg (by omega)]
  | case2 xs i j hj h =>
    rw [reverseBetween, dif_neg h]
    split
    · congr 1
      omega
    · rfl

@[simp] theorem size_reverseBetween (xs : Array α) (i j : Nat) (hj : i < j → j < xs.size) :
    (reverseBetween xs i j hj).size = xs.size := by
  induction xs, i, j, hj using reverseBetween.induct with
  | case1 xs i j hj h ih => rw [reverseBetween, dif_pos h, ih, Array.size_swap]
  | case2 xs i j hj h => rw [reverseBetween, dif_neg h]

/-- **The reversed array is the array read backwards.** -/
@[simp] theorem toList_reverse (xs : Array α) : (reverse xs).toList = xs.toList.reverse := by
  have heq : reverse xs = xs.reverse := by
    refine Array.ext_getElem? (fun k => ?_)
    unfold reverse
    by_cases hk : k < xs.size
    · rw [getElem?_reverseBetween, if_pos (by omega), Array.getElem?_reverse hk]
      congr 1
      omega
    · rw [Array.getElem?_eq_none (by rw [size_reverseBetween]; omega),
        Array.getElem?_eq_none (by rw [Array.size_reverse]; omega)]
  rw [heq, Array.toList_reverse]

/-! ## Indices -/

variable [BEq α] [LawfulBEq α] {x u v : α}

/-- The index of an element that occurs. -/
theorem indexOf?_of_mem {xs : Array α} (h : x ∈ xs.toList) :
    indexOf? xs x = some (xs.toList.idxOf x) := by
  obtain ⟨l⟩ := xs
  show l.toArray.findIdx? (· == x) = some (l.idxOf x)
  rw [List.findIdx?_toArray]
  exact List.findIdx?_eq_some_of_exists ⟨x, h, beq_self_eq_true x⟩

/-- In a list without repetitions the earlier of two elements has the smaller
index. -/
theorem idxOf_lt_of_sublist {l : List α} (hl : l.Nodup) (h : [u, v].Sublist l) :
    l.idxOf u < l.idxOf v := by
  obtain ⟨l₁, l₂, rfl, hu, hsub⟩ := List.cons_sublist_iff.mp h
  have hv : v ∈ l₂ := List.singleton_sublist.mp hsub
  have hnot : v ∉ l₁ := fun hmem => (List.nodup_append.mp hl).2.2 v hmem v hv rfl
  rw [List.idxOf_append_of_mem hu, List.idxOf_append_of_notMem hnot]
  exact Nat.lt_add_right _ (List.idxOf_lt_length_of_mem hu)

/-- **`u` stands before `v`**: both occur, and the index of `u` is the smaller one. -/
def Precedes (xs : Array α) (u v : α) : Prop :=
  ∃ i j, indexOf? xs u = some i ∧ indexOf? xs v = some j ∧ i < j

/-- Of two elements that occur, the one with the smaller index stands before the
other. -/
theorem precedes_iff {xs : Array α} (hu : u ∈ xs.toList) (hv : v ∈ xs.toList) :
    Precedes xs u v ↔ xs.toList.idxOf u < xs.toList.idxOf v := by
  unfold Precedes
  rw [indexOf?_of_mem hu, indexOf?_of_mem hv]
  simp

theorem precedes_of_sublist {xs : Array α} (hxs : xs.toList.Nodup)
    (h : [u, v].Sublist xs.toList) : Precedes xs u v := by
  have hu : u ∈ xs.toList := h.subset List.mem_cons_self
  have hv : v ∈ xs.toList := h.subset (List.mem_cons_of_mem u List.mem_cons_self)
  exact (precedes_iff hu hv).mpr (idxOf_lt_of_sublist hxs h)

end TopologicalOrder
