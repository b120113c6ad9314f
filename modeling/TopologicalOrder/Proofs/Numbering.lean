import Mathlib
import TopologicalOrder.Proofs.Interning
import TopologicalOrder.Proofs.KeyOrders

/-!
# The history of an interner

An interner answers every call from an index of keys and an array of keys, and both are the
work of the calls before. What they hold can be told from those calls alone: the keys are the
ones that equal no earlier one, in the order of the calls (`Interner.keys_internAll`). A key
that differs from itself equals nothing, so every call with it adds one more; of keys that
are equal and not the same, the first is the one that is kept.

Keys are only ever added at the end (`Interner.keys_prefix_internAll`). Two interners of which
one has the other's keys and then more agree on all numbers of the first
(`Interner.Consistent.lookup_of_extends`, `Interner.Consistent.lookup_of_lt`), so no later call
changes what a number stands for, or the number of a key that has one.
-/

namespace TopologicalOrder

variable {K : Type} [BEq K]

/-! ## First mentions -/

/-- **The keys of a list that equal no earlier one**, in their order. -/
def firstMentions (ks : List K) : List K :=
  (ks.zipIdx.filter fun p => !(ks.take p.2).any (· == p.1)).map Prod.fst

/-- One more key is a first mention unless it equals an earlier one. -/
theorem firstMentions_concat (ks : List K) (k : K) :
    firstMentions (ks ++ [k]) =
      if ks.any (· == k) then firstMentions ks else firstMentions ks ++ [k] := by
  have hinit : ks.zipIdx.filter (fun p => !((ks ++ [k]).take p.2).any (· == p.1)) =
      ks.zipIdx.filter (fun p => !(ks.take p.2).any (· == p.1)) := by
    refine List.filter_congr fun p hp => ?_
    obtain ⟨-, hlt, -⟩ := List.mem_zipIdx hp
    rw [List.take_append_of_le_length (by omega)]
  unfold firstMentions
  rw [List.zipIdx_append, List.filter_append, List.map_append, hinit]
  by_cases hk : ks.any (· == k) = true
  · rw [if_pos hk]
    simp [hk]
  · rw [if_neg hk]
    simp [hk]

/-- Where all keys differ, each is a first mention. -/
theorem firstMentions_of_distinct {ks : List K}
    (h : ks.Pairwise fun a b => (a == b) = false) : firstMentions ks = ks := by
  induction ks using List.reverseRecOn with
  | nil => rfl
  | append_singleton ks k ih =>
    obtain ⟨hinit, -, hlast⟩ := List.pairwise_append.mp h
    rw [firstMentions_concat, ih hinit, if_neg]
    rw [List.any_eq_true]
    rintro ⟨a, ha, hak⟩
    cases hak.symm.trans (hlast a ha k (List.mem_singleton_self k))

/-- **A key equals a first mention if it equals any key at all**, since equality carries over
from a later mention to the first. -/
theorem any_firstMentions [PartialEquivBEq K] (ks : List K) (k : K) :
    (firstMentions ks).any (· == k) = ks.any (· == k) := by
  induction ks using List.reverseRecOn with
  | nil => rfl
  | append_singleton ks j ih =>
    rw [firstMentions_concat, List.any_append, List.any_cons, List.any_nil, Bool.or_false]
    by_cases hj : ks.any (· == j) = true
    · rw [if_pos hj, ih]
      cases hjk : j == k with
      | false => rw [Bool.or_false]
      | true =>
        obtain ⟨a, ha, haj⟩ := List.any_eq_true.mp hj
        rw [Bool.or_true]
        exact List.any_eq_true.mpr ⟨a, ha, BEq.trans haj hjk⟩
    · rw [if_neg hj, List.any_append, List.any_cons, List.any_nil, Bool.or_false, ih]

namespace Interner

variable {t t' : Interner K} {k : K} {i : Nat}

/-! ## Sequences of calls -/

/-- The interner that a sequence of calls leaves. -/
def internAll (t : Interner K) (ks : List K) : Interner K :=
  ks.foldl (fun t k => (t.intern k).2) t

theorem internAll_append (t : Interner K) (ks ls : List K) :
    t.internAll (ks ++ ls) = (t.internAll ks).internAll ls :=
  List.foldl_append

/-- A call adds nothing, or its key at the end. -/
theorem keys_prefix_intern (t : Interner K) (k : K) :
    t.keys.toList <+: (t.intern k).2.keys.toList := by
  cases hk : t.lookup k with
  | some i =>
    rw [intern_of_lookup hk]
  | none =>
    rw [intern_of_lookup_none hk]
    show _ <+: (t.keys.push k).toList
    rw [Array.toList_push]
    exact List.prefix_append _ _

/-- **Keys are only ever added at the end.** -/
theorem keys_prefix_internAll (t : Interner K) (ks : List K) :
    t.keys.toList <+: (t.internAll ks).keys.toList := by
  induction ks generalizing t with
  | nil => exact List.prefix_rfl
  | cons k ks ih => exact (keys_prefix_intern t k).trans (ih (t.intern k).2)

/-- A call answers the number of its key, or else the next one. -/
theorem intern_fst (t : Interner K) (k : K) : (t.intern k).1 = (t.lookup k).getD t.size := by
  cases hk : t.lookup k with
  | some i => rw [intern_of_lookup hk, Option.getD_some]
  | none => rw [intern_of_lookup_none hk, Option.getD_none]

omit [BEq K] in
theorem key?_of_nonneg (t : Interner K) {v : Int} (hv : 0 ≤ v) :
    t.key? v = t.keys.toList[v.toNat]? := by
  rw [key?, if_pos hv, Array.getElem?_toList]

omit [BEq K] in
/-- **The numbers in use are those below the number of keys.** -/
theorem exists_key?_iff (t : Interner K) (v : Int) :
    (∃ k, t.key? v = some k) ↔ 0 ≤ v ∧ v < t.size := by
  constructor
  · rintro ⟨k, hk⟩
    by_cases h0 : 0 ≤ v
    · rw [key?, if_pos h0] at hk
      exact ⟨h0, (Int.toNat_lt h0).mp (Array.getElem?_eq_some_iff.mp hk).1⟩
    · rw [key?, if_neg h0] at hk
      cases hk
  · rintro ⟨h0, hlt⟩
    rw [key?, if_pos h0]
    exact ⟨_, Array.getElem?_eq_getElem ((Int.toNat_lt h0).mpr hlt)⟩

omit [BEq K] in
/-- **A number in use keeps its key**, as long as keys are only added at the end. -/
theorem key?_of_extends (hextends : t.keys.toList <+: t'.keys.toList) {v : Int}
    (hv : v < t.size) : t'.key? v = t.key? v := by
  by_cases h0 : 0 ≤ v
  · have hlt : v.toNat < t.keys.toList.length := by
      rw [Array.length_toList]
      exact (Int.toNat_lt h0).mpr hv
    rw [key?_of_nonneg t h0, key?_of_nonneg t' h0, List.getElem?_eq_getElem hlt]
    exact List.prefix_iff_getElem?.mp hextends v.toNat hlt
  · rw [key?, key?, if_neg h0, if_neg h0]

section Comparable

variable [PartialEquivBEq K]

theorem Consistent.internAll (h : t.Consistent) (ks : List K) : (t.internAll ks).Consistent := by
  induction ks generalizing t with
  | nil => exact h
  | cons k ks ih => exact ih (h.intern k)

theorem Consistent.lookup_eq_findIdx? (h : t.Consistent) (k : K) :
    t.lookup k = t.keys.toList.findIdx? (· == k) := by
  rw [h.lookup_eq, indexOf?, ← List.findIdx?_toArray, Array.toArray_toList]

/-- **A number that is given stays given**, as long as keys are only added at the end. -/
theorem Consistent.lookup_of_extends (h : t.Consistent) (h' : t'.Consistent)
    (hextends : t.keys.toList <+: t'.keys.toList) (hk : t.lookup k = some i) :
    t'.lookup k = some i := by
  rw [h.lookup_eq_findIdx?] at hk
  rw [h'.lookup_eq_findIdx?]
  exact hextends.findIdx?_eq_some hk

/-- **A number that was in use is found only where it was found before.** -/
theorem Consistent.lookup_of_lt (h : t.Consistent) (h' : t'.Consistent)
    (hextends : t.keys.toList <+: t'.keys.toList) (hk : t'.lookup k = some i) (hi : i < t.size) :
    t.lookup k = some i := by
  cases hlookup : t.lookup k with
  | some j => exact (h.lookup_of_extends h' hextends hlookup).symm.trans hk
  | none =>
    -- then the key is found after all keys that there were
    obtain ⟨rest, hrest⟩ := hextends
    rw [h.lookup_eq_findIdx?] at hlookup
    rw [h'.lookup_eq_findIdx?, ← hrest, List.findIdx?_append, hlookup, Option.none_or] at hk
    obtain ⟨j, -, rfl⟩ := Option.map_eq_some_iff.mp hk
    have hlength : t.keys.toList.length = t.size := Array.length_toList
    omega

/-- The number of a key stands for an equal key. -/
theorem Consistent.key?_of_lookup (h : t.Consistent) (hk : t.lookup k = some i) :
    ∃ j, t.key? (i : Int) = some j ∧ (j == k) = true := by
  rw [h.lookup_eq_findIdx?] at hk
  obtain ⟨hlt, hbeq, -⟩ := List.findIdx?_eq_some_iff_getElem.mp hk
  refine ⟨t.keys.toList[i], ?_, hbeq⟩
  rw [key?_of_nonneg t (Int.natCast_nonneg i), Int.toNat_natCast, List.getElem?_eq_getElem hlt]

/-- **Keys of one number are equal.** -/
theorem Consistent.beq_of_lookup {j : K} (h : t.Consistent) (hj : t.lookup j = some i)
    (hk : t.lookup k = some i) : (j == k) = true := by
  obtain ⟨a, ha, haj⟩ := h.key?_of_lookup hj
  obtain ⟨b, hb, hbk⟩ := h.key?_of_lookup hk
  obtain rfl : a = b := Option.some.inj (ha.symm.trans hb)
  exact BEq.trans (BEq.symm haj) hbk

/-- **The keys are the first mentions of the calls.** -/
theorem keys_internAll (ks : List K) :
    (internAll ({} : Interner K) ks).keys.toList = firstMentions ks := by
  induction ks using List.reverseRecOn with
  | nil => rfl
  | append_singleton ks k ih =>
    have h : (internAll ({} : Interner K) ks).Consistent := consistent_empty.internAll ks
    have hfound : ((internAll ({} : Interner K) ks).lookup k).isSome = ks.any (· == k) := by
      rw [h.lookup_eq_findIdx?, List.findIdx?_isSome, ih, any_firstMentions]
    rw [internAll_append, firstMentions_concat, ← hfound, ← ih]
    show ((internAll {} ks).intern k).2.keys.toList = _
    cases hk : (internAll ({} : Interner K) ks).lookup k with
    | some i =>
      rw [intern_of_lookup hk]
      rfl
    | none =>
      rw [intern_of_lookup_none hk]
      exact Array.toList_push

/-- **What an interner does over a whole run.** Take any sequence of calls on an empty
interner. The keys are the first mentions among the arguments, no two of them are equal, and
they are as many as the interner says. To look a key up is to search the keys for it, and one
more call answers the place at which its key is found, or else the number of keys. The numbers
from zero up to that number stand for the keys in their order, and no others for anything. A
number in use keeps its key, and a key that has a number keeps it, whatever calls follow. -/
theorem interner_of_every_run (ks : List K) :
    (internAll ({} : Interner K) ks).keys.toList = firstMentions ks ∧
      let t := internAll ({} : Interner K) ks
      (t.size = t.keys.toList.length ∧ t.keys.toList.Pairwise fun a b => (a == b) = false) ∧
      (∀ k, t.lookup k = indexOf? t.keys k ∧
        (t.intern k).1 = (indexOf? t.keys k).getD t.size) ∧
      (∀ v : Int, ((∃ k, t.key? v = some k) ↔ 0 ≤ v ∧ v < t.size) ∧
        (0 ≤ v → t.key? v = t.keys.toList[v.toNat]?)) ∧
      ∀ ls : List K, (∀ v : Int, v < t.size → (t.internAll ls).key? v = t.key? v) ∧
        ∀ k i, t.lookup k = some i → (t.internAll ls).lookup k = some i := by
  refine ⟨keys_internAll ks, ?_⟩
  intro t
  have h : t.Consistent := consistent_empty.internAll ks
  refine ⟨⟨Array.length_toList.symm, h.distinct⟩, fun k => ⟨h.lookup_eq k, ?_⟩,
    fun v => ⟨exists_key?_iff t v, key?_of_nonneg t⟩, fun ls => ?_⟩
  · rw [intern_fst, h.lookup_eq]
  · have hextends := keys_prefix_internAll t ls
    exact ⟨fun v hv => key?_of_extends hextends hv,
      fun k i hk => h.lookup_of_extends (h.internAll ls) hextends hk⟩

/-- Of five floats the third is zero once more, though with the other sign, and is not kept;
the two that are no numbers are both kept, and neither is found again. -/
theorem interner_of_every_run_floats :
    let nan : Float := 0 / 0
    let ks : List Float := [0, nan, -0, nan, 1]
    let t := internAll {} ks
    PartialEquivBEq Float ∧ t.keys.toList = firstMentions ks ∧ t.size = 4 ∧
      t.lookup (-0) = some 0 ∧ t.lookup nan = none ∧ (t.intern nan).1 = 4 ∧
      (t.key? 0).map Float.toBits = some 0 ∧
      ((t.internAll [nan, 5]).key? 0).map Float.toBits = some 0 ∧
      (t.internAll [nan, 5]).lookup 1 = some 3 := by
  intro nan ks t
  obtain ⟨hkeys, -, hlookup, -, hlater⟩ := interner_of_every_run ks
  obtain ⟨hkept, hfound⟩ := hlater [nan, 5]
  have hsize : t.size = 4 := by decide +kernel
  have hfirst : (t.key? 0).map Float.toBits = some 0 := by decide +kernel
  refine ⟨inferInstance, hkeys, hsize, (hlookup (-0)).1.trans (by decide +kernel),
    (hlookup nan).1.trans (by decide +kernel), (hlookup nan).2.trans (by decide +kernel), hfirst,
    ?_, hfound 1 3 ((hlookup 1).1.trans (by decide +kernel))⟩
  rw [hkept 0 (by rw [hsize]; decide)]
  exact hfirst

end Comparable

end Interner

end TopologicalOrder
