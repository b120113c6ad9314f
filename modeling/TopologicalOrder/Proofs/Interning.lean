import Mathlib
import TopologicalOrder.Keyed.Interner
import TopologicalOrder.Proofs.Positions

/-!
# What an interner knows

An interner holds every key twice: in the array of the keys by number, and in the index
from keys to numbers. The two are kept apart by hand, so the first thing to know is that
they say the same (`Interner.Consistent`): the index lists the keys with the places at
which they stand, and no key equals an earlier one. Then to look a key up in the index
is to search the array for it (`Interner.Consistent.lookup_eq`), and interning a key
either finds it or puts it at the end (`Interner.intern_of_lookup`).

Nothing of this needs a key to equal itself; it is enough that equality is symmetric and
transitive. For keys with lawful equality, numbers and keys are in bijection
(`Interner.Consistent.lookup_eq_some`).
-/

namespace TopologicalOrder.Interner

variable {K : Type} [BEq K] {t : Interner K} {k : K} {i : Nat}

/-- **Index and array say the same.** -/
structure Consistent (t : Interner K) : Prop where
  /-- The index lists the keys with their numbers, the latest key first. -/
  index_eq : t.index = t.keys.toList.zipIdx.reverse
  /-- No key equals an earlier one. -/
  distinct : t.keys.toList.Pairwise fun a b => (a == b) = false

theorem consistent_empty : ({} : Interner K).Consistent where
  index_eq := rfl
  distinct := List.Pairwise.nil

/-- The interner with one more key. -/
def withKey (t : Interner K) (k : K) : Interner K :=
  { index := (k, t.size) :: t.index, keys := t.keys.push k }

/-- **A key that has a number keeps it.** -/
theorem intern_of_lookup (h : t.lookup k = some i) : t.intern k = (i, t) := by
  unfold intern
  rw [h]

/-- **A key that has no number gets the next one.** -/
theorem intern_of_lookup_none (h : t.lookup k = none) : t.intern k = (t.size, t.withKey k) := by
  unfold intern
  rw [h]
  rfl

section Comparable

variable [PartialEquivBEq K]

/-- Searching an index from its end is searching the keys from their start, if no key
equals an earlier one. -/
theorem lookup_reverse_zipIdx {l : List K} (hl : l.Pairwise fun a b => (a == b) = false)
    (k : K) : l.zipIdx.reverse.lookup k = l.findIdx? (· == k) := by
  induction l using List.reverseRecOn with
  | nil => rfl
  | append_singleton l a ih =>
    obtain ⟨hinit, -, hlast⟩ := List.pairwise_append.mp hl
    rw [List.zipIdx_append, List.reverse_append, List.findIdx?_append]
    show ((a, 0 + l.length) :: l.zipIdx.reverse).lookup k = _
    rw [List.lookup_cons, ih hinit]
    cases hk : k == a with
    | false =>
      have hk' : (a == k) = false := by rw [BEq.comm]; exact hk
      simp [hk']
    | true =>
      -- a key before `a` that equals `k` would equal `a`
      have hnone : l.findIdx? (· == k) = none := by
        refine List.findIdx?_eq_none_iff.mpr fun b hb => ?_
        rw [← hlast b hb a (List.mem_singleton_self a)]
        exact BEq.congr_right hk
      simp [hnone, BEq.symm hk]

/-- **To look a key up is to search the array for it.** -/
theorem Consistent.lookup_eq (h : t.Consistent) (k : K) : t.lookup k = indexOf? t.keys k := by
  unfold lookup indexOf?
  rw [h.index_eq, lookup_reverse_zipIdx h.distinct, ← List.findIdx?_toArray, Array.toArray_toList]

/-- **Interning keeps index and array in step.** -/
theorem Consistent.withKey (h : t.Consistent) (hk : t.lookup k = none) :
    (t.withKey k).Consistent where
  index_eq := by
    show (k, t.keys.size) :: t.index = (t.keys.push k).toList.zipIdx.reverse
    rw [h.index_eq, Array.toList_push, List.zipIdx_append, List.reverse_append]
    simp
  distinct := by
    show (t.keys.push k).toList.Pairwise _
    rw [h.lookup_eq] at hk
    rw [Array.toList_push, List.pairwise_append]
    refine ⟨h.distinct, List.pairwise_singleton _ k, fun a ha b hb => ?_⟩
    obtain rfl := List.mem_singleton.mp hb
    exact Array.findIdx?_eq_none_iff.mp hk a (Array.mem_toList_iff.mp ha)

theorem Consistent.intern (h : t.Consistent) (k : K) : (t.intern k).2.Consistent := by
  cases hk : t.lookup k with
  | some i =>
    rw [intern_of_lookup hk]
    exact h
  | none =>
    rw [intern_of_lookup_none hk]
    exact h.withKey hk

end Comparable

section Lawful

variable [LawfulBEq K]

theorem Consistent.nodup (h : t.Consistent) : t.keys.toList.Nodup :=
  h.distinct.imp fun hne => ne_of_beq_false hne

/-- **The number of a key is where the key stands.** -/
theorem Consistent.lookup_eq_some (h : t.Consistent) :
    t.lookup k = some i ↔ t.keys[i]? = some k := by
  rw [h.lookup_eq]
  constructor
  · intro hi
    obtain ⟨hlt, heq, -⟩ := Array.findIdx?_eq_some_iff_getElem.mp hi
    rw [Array.getElem?_eq_getElem hlt, eq_of_beq heq]
  · intro hi
    have hget : t.keys.toList[i]? = some k := by rw [Array.getElem?_toList]; exact hi
    rw [indexOf?_of_mem (List.mem_of_getElem? hget)]
    obtain ⟨hlt, rfl⟩ := List.getElem?_eq_some_iff.mp hget
    exact congrArg some (h.nodup.idxOf_getElem i hlt)

end Lawful

end TopologicalOrder.Interner
