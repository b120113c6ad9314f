import Mathlib
import TopologicalOrder.Keyed.Key

/-!
# Comparing keys

Keys are compared in two ways: for equality, to number them, and by an order, to list them.
Little is asked of equality. It has to be symmetric and transitive, and it need not be
reflexive, because it is not for floats: what is no number differs from itself, and the two
zeros are equal though they are not the same.

That floats keep to this is a fact about their representation. Every number has a place on a
line (`Number.place`), which is that of its sign, then its exponent, then its mantissa, and
numbers compare as their places do (`Number.compare_eq_place`). What is no number has no
place. So floats inherit the laws of the line (`Number.beq_iff`, `Number.le_iff`).

An order suits the equality of its keys (`LawfulKeyOrder`) if it is total and transitive and
ties only what is equal. The last holds of keys that equal themselves, and that is as much as
can be had for floats.
-/

namespace TopologicalOrder

/-! ## Floats on a line -/

namespace Number

open Float.Model

/-- **The place of a number on the line**; what is no number has none. Below zero, exponents
and mantissas count backwards. -/
def place : UnpackedFloat → Option (Int ×ₗ Int ×ₗ Int)
  | .notANumber => none
  | .infinity .negative => some (toLex (-2, toLex (0, 0)))
  | .finite .negative m e _ => some (toLex (-1, toLex (-e, -(m : Int))))
  | .zero _ => some (toLex (0, toLex (0, 0)))
  | .finite .positive m e _ => some (toLex (1, toLex (e, (m : Int))))
  | .infinity .positive => some (toLex (2, toLex (0, 0)))

theorem compare_toLex {α β : Type} [LinearOrder α] [LinearOrder β] (a c : α) (b d : β) :
    compare (toLex (a, b)) (toLex (c, d)) = (compare a c).then (compare b d) := by
  rw [Prod.Lex.compare_def]
  rfl

theorem compare_natCast (m n : Nat) : compare (m : Int) (n : Int) = compare m n := by
  simp only [compare, compareOfLessAndEq, Int.ofNat_lt, Int.ofNat_inj]

theorem compare_neg (a b : Int) : compare (-a) (-b) = (compare a b).swap := by
  rcases lt_trichotomy a b with h | rfl | h
  · rw [compare_lt_iff_lt.mpr h, compare_gt_iff_gt.mpr (neg_lt_neg h)]
    rfl
  · simp
  · rw [compare_gt_iff_gt.mpr h, compare_lt_iff_lt.mpr (neg_lt_neg h)]
    rfl

/-- **Numbers compare as their places do**, and nothing compares with what is no number. -/
theorem compare_eq_place (x y : UnpackedFloat) :
    x.compare y = Option.map₂ compare (place x) (place y) := by
  rcases x with ⟨_ | _⟩ | _ | _ | ⟨_ | _, m, e, hm⟩ <;>
    rcases y with ⟨_ | _⟩ | _ | _ | ⟨_ | _, n, d, hn⟩
  -- the sign decides, unless both numbers are finite and of one sign
  any_goals rfl
  · show some ((compare e d).then (compare m n)).swap = some (compare (toLex _) (toLex _))
    rw [compare_toLex, compare_toLex, compare_neg e d, compare_neg m n, compare_natCast,
      Ordering.swap_then]
    rfl
  · show some ((compare e d).then (compare m n)) = some (compare (toLex _) (toLex _))
    rw [compare_toLex, compare_toLex, compare_natCast]
    rfl

variable {x y z : Float}

/-- **Floats are equal if they stand at one place.** -/
theorem beq_iff : (x == y) = true ↔ ∃ p, place x.toModel.unpack = some p ∧
    place y.toModel.unpack = some p := by
  show (x.toModel.unpack.compare y.toModel.unpack == some .eq) = true ↔ _
  rw [compare_eq_place, beq_iff_eq]
  cases place x.toModel.unpack with
  | none => simp
  | some p =>
    cases place y.toModel.unpack with
    | none => simp
    | some q =>
      rw [Option.map₂_some_some, Option.some_inj, compare_eq_iff_eq]
      simp [eq_comm]

/-- **A float is at most another if its place is.** -/
theorem le_iff : x ≤ y ↔ ∃ p q, place x.toModel.unpack = some p ∧
    place y.toModel.unpack = some q ∧ p ≤ q := by
  show decide (((x.toModel.unpack.compare y.toModel.unpack).any (·.isLE)) = true) = true ↔ _
  rw [compare_eq_place, decide_eq_true_iff]
  cases place x.toModel.unpack with
  | none => simp
  | some p =>
    cases place y.toModel.unpack with
    | none => simp
    | some q => simp [compare_le_iff_le, Ordering.isLE_iff_ne_gt]

theorem isNaN_iff : x.isNaN = true ↔ place x.toModel.unpack = none := by
  show x.toModel.unpack.isNaN = true ↔ _
  rw [UnpackedFloat.isNaN_iff]
  rcases x.toModel.unpack with ⟨_ | _⟩ | _ | _ | ⟨_ | _, m, e, hm⟩ <;> simp [place]

/-- **Equality of floats is symmetric and transitive**, though what is no number differs from
itself. -/
instance instPartialEquivBEqFloat : PartialEquivBEq Float where
  symm h := by
    obtain ⟨p, hx, hy⟩ := beq_iff.mp h
    exact beq_iff.mpr ⟨p, hy, hx⟩
  trans h h' := by
    obtain ⟨p, hx, hy⟩ := beq_iff.mp h
    obtain ⟨q, hy', hz⟩ := beq_iff.mp h'
    obtain rfl : p = q := Option.some.inj (hy.symm.trans hy')
    exact beq_iff.mpr ⟨p, hx, hz⟩

end Number

/-! ## Orders of keys -/

/-- **An order by which keys can be listed**: it is total and transitive, equal keys are tied,
and of keys that equal themselves only equal ones are. -/
class LawfulKeyOrder (K : Type) [BEq K] [KeyOrder K] : Prop where
  /-- Of two keys one may be listed before the other. -/
  le_total (a b : K) : (KeyOrder.le a b || KeyOrder.le b a) = true
  /-- What is listed before another is listed before all that follows it. -/
  le_trans {a b c : K} : KeyOrder.le a b = true → KeyOrder.le b c = true →
    KeyOrder.le a c = true
  /-- Equal keys are tied. -/
  le_of_beq {a b : K} : (a == b) = true → KeyOrder.le a b = true
  /-- Keys that are tied are equal. -/
  beq_of_le_of_le {a b : K} : (a == a) = true → KeyOrder.le a b = true →
    KeyOrder.le b a = true → (a == b) = true

/-- **The first key is listed strictly before the second.** -/
def KeyOrder.Before {K : Type} [KeyOrder K] (a b : K) : Prop :=
  KeyOrder.le a b = true ∧ KeyOrder.le b a = false

/-- A linear order lists keys by itself, if they are equal only to themselves. -/
theorem LawfulKeyOrder.of_linearOrder {K : Type} [BEq K] [LawfulBEq K] [KeyOrder K] [LinearOrder K]
    (hle : ∀ a b : K, KeyOrder.le a b = true ↔ a ≤ b) : LawfulKeyOrder K where
  le_total a b := by
    rw [Bool.or_eq_true, hle, hle]
    exact LinearOrder.le_total a b
  le_trans h h' := (hle _ _).mpr (((hle _ _).mp h).trans ((hle _ _).mp h'))
  le_of_beq h := (hle _ _).mpr (eq_of_beq h).le
  beq_of_le_of_le _ h h' := beq_iff_eq.mpr (le_antisymm ((hle _ _).mp h) ((hle _ _).mp h'))

instance : LawfulKeyOrder String := .of_linearOrder fun _ _ => decide_eq_true_iff

instance : LawfulKeyOrder Int := .of_linearOrder fun _ _ => decide_eq_true_iff

/-- A float is listed before all others if it is no number, and else before those whose
places do not come earlier. -/
theorem Number.keyOrder_le_iff {x y : Float} :
    KeyOrder.le x y = true ↔ ∀ p, place x.toModel.unpack = some p →
      ∃ q, place y.toModel.unpack = some q ∧ p ≤ q := by
  show (x.isNaN || decide (x ≤ y)) = true ↔ _
  rw [Bool.or_eq_true, decide_eq_true_iff, isNaN_iff, le_iff]
  cases place x.toModel.unpack with
  | none => simp
  | some p => simp

/-- **Floats are listed by an order of this kind**: those that are no numbers come first, in
no particular order among themselves, and numbers come as they stand on the line. -/
instance : LawfulKeyOrder Float where
  le_total a b := by
    rw [Bool.or_eq_true, Number.keyOrder_le_iff, Number.keyOrder_le_iff]
    cases Number.place a.toModel.unpack with
    | none => simp
    | some p =>
      cases Number.place b.toModel.unpack with
      | none => simp
      | some q => simpa using le_total p q
  le_trans h h' := by
    rw [Number.keyOrder_le_iff] at h h' ⊢
    intro p hp
    obtain ⟨q, hq, hpq⟩ := h p hp
    obtain ⟨r, hr, hqr⟩ := h' q hq
    exact ⟨r, hr, hpq.trans hqr⟩
  le_of_beq h := by
    obtain ⟨p, hx, hy⟩ := Number.beq_iff.mp h
    refine Number.keyOrder_le_iff.mpr fun p' hx' => ⟨p, hy, ?_⟩
    exact (Option.some.inj (hx'.symm.trans hx)).le
  beq_of_le_of_le hself h h' := by
    obtain ⟨p, hx, -⟩ := Number.beq_iff.mp hself
    obtain ⟨q, hy, hpq⟩ := Number.keyOrder_le_iff.mp h p hx
    obtain ⟨p', hx', hqp⟩ := Number.keyOrder_le_iff.mp h' q hy
    obtain rfl : p = p' := Option.some.inj (hx.symm.trans hx')
    exact Number.beq_iff.mpr ⟨p, hx, by rw [hy, le_antisymm hpq hqp]⟩

/-! ## Keys in ascending order -/

section Ascending

variable {K : Type} [BEq K] [PartialEquivBEq K] [KeyOrder K] [LawfulKeyOrder K] {a b c d : K}
  {l l' : List K}

omit [BEq K] [PartialEquivBEq K] [LawfulKeyOrder K] in
theorem KeyOrder.Before.asymm (h : KeyOrder.Before a b) : ¬ KeyOrder.Before b a :=
  fun h' => Bool.false_ne_true (h.2.symm.trans h'.1)

theorem KeyOrder.Before.beq_eq_false (h : KeyOrder.Before a b) : (a == b) = false := by
  cases hab : a == b with
  | false => rfl
  | true => exact (LawfulKeyOrder.le_of_beq (BEq.symm hab)).symm.trans h.2

/-- Keys equal to ascending ones ascend. -/
theorem KeyOrder.Before.congr (hac : (a == c) = true) (hbd : (b == d) = true)
    (h : KeyOrder.Before c d) : KeyOrder.Before a b := by
  refine ⟨LawfulKeyOrder.le_trans (LawfulKeyOrder.le_of_beq hac)
    (LawfulKeyOrder.le_trans h.1 (LawfulKeyOrder.le_of_beq (BEq.symm hbd))), ?_⟩
  -- otherwise the other two would be tied as well
  cases hba : KeyOrder.le b a with
  | false => rfl
  | true =>
    have hdc : KeyOrder.le d c = true :=
      LawfulKeyOrder.le_trans (LawfulKeyOrder.le_of_beq (BEq.symm hbd))
        (LawfulKeyOrder.le_trans hba (LawfulKeyOrder.le_of_beq hac))
    exact hdc.symm.trans h.2

theorem pairwise_before_of_forall₂ (h : List.Forall₂ (fun a b => (a == b) = true) l l')
    (hl' : l'.Pairwise KeyOrder.Before) : l.Pairwise KeyOrder.Before := by
  obtain ⟨hlength, hbeq⟩ := List.forall₂_iff_get.mp h
  rw [List.pairwise_iff_get] at hl' ⊢
  intro i j hij
  have hi : i.val < l'.length := hlength ▸ i.isLt
  have hj : j.val < l'.length := hlength ▸ j.isLt
  exact (hl' ⟨i, hi⟩ ⟨j, hj⟩ hij).congr (hbeq i i.isLt hi) (hbeq j j.isLt hj)

/-- **Different keys that are sorted ascend strictly.** -/
theorem pairwise_before_mergeSort (hself : ∀ a ∈ l, (a == a) = true)
    (hdistinct : l.Pairwise fun a b => (a == b) = false) :
    (l.mergeSort KeyOrder.le).Pairwise KeyOrder.Before := by
  have hsorted : (l.mergeSort KeyOrder.le).Pairwise fun a b => KeyOrder.le a b = true :=
    List.pairwise_mergeSort (fun a b c => LawfulKeyOrder.le_trans (a := a) (b := b) (c := c))
      LawfulKeyOrder.le_total l
  have hdifferent : (l.mergeSort KeyOrder.le).Pairwise fun a b => (a == b) = false := by
    refine ((List.mergeSort_perm l _).pairwise_iff fun {a b} hab => ?_).mpr hdistinct
    rw [BEq.comm]
    exact hab
  refine (hsorted.and hdifferent).imp_of_mem fun {a b} ha _ hab => ⟨hab.1, ?_⟩
  cases hba : KeyOrder.le b a with
  | false => rfl
  | true =>
    have hself' := hself a (List.mem_mergeSort.mp ha)
    exact (LawfulKeyOrder.beq_of_le_of_le hself' hab.1 hba).symm.trans hab.2

omit [BEq K] [PartialEquivBEq K] [LawfulKeyOrder K] in
/-- **There is one way only to list keys in ascending order.** -/
theorem eq_of_perm_of_before (h : l.Perm l') (hl : l.Pairwise KeyOrder.Before)
    (hl' : l'.Pairwise KeyOrder.Before) : l = l' :=
  h.eq_of_pairwise (fun _ _ _ _ hab hba => absurd hba hab.asymm) hl hl'

/-- What follows the first key is found after the first key of another list, if the first
keys are equal. -/
theorem exists_beq_of_cons (hab : (a == b) = true) (hl : ∀ x ∈ l, KeyOrder.Before a x)
    (h : ∀ k, (∃ x ∈ a :: l, (x == k) = true) → ∃ y ∈ b :: l', (y == k) = true) (k : K)
    (hk : ∃ x ∈ l, (x == k) = true) : ∃ y ∈ l', (y == k) = true := by
  obtain ⟨x, hx, hxk⟩ := hk
  obtain ⟨y, hy, hyk⟩ := h k ⟨x, List.mem_cons_of_mem a hx, hxk⟩
  rcases List.mem_cons.mp hy with rfl | hy
  · have hax : (a == x) = true := BEq.trans (BEq.trans hab hyk) (BEq.symm hxk)
    cases hax.symm.trans (hl x hx).beq_eq_false
  · exact ⟨y, hy, hyk⟩

/-- **Ascending lists of the same keys are equal key by key.** -/
theorem forall₂_beq_of_before (hself : ∀ a ∈ l, (a == a) = true)
    (hself' : ∀ a ∈ l', (a == a) = true) (hl : l.Pairwise KeyOrder.Before)
    (hl' : l'.Pairwise KeyOrder.Before)
    (h : ∀ k, (∃ a ∈ l, (a == k) = true) ↔ ∃ a ∈ l', (a == k) = true) :
    List.Forall₂ (fun a b => (a == b) = true) l l' := by
  induction l generalizing l' with
  | nil =>
    cases l' with
    | nil => exact .nil
    | cons b l' =>
      obtain ⟨a, ha, -⟩ := (h b).mpr ⟨b, List.mem_cons_self, hself' b List.mem_cons_self⟩
      exact absurd ha List.not_mem_nil
  | cons a l ih =>
    obtain ⟨b', hb', hb'a⟩ := (h a).mp ⟨a, List.mem_cons_self, hself a List.mem_cons_self⟩
    cases l' with
    | nil => exact absurd hb' List.not_mem_nil
    | cons b l' =>
      obtain ⟨a', ha', ha'b⟩ := (h b).mpr ⟨b, List.mem_cons_self, hself' b List.mem_cons_self⟩
      obtain ⟨hselfa, hself⟩ := List.forall_mem_cons.mp hself
      obtain ⟨hselfb, hself'⟩ := List.forall_mem_cons.mp hself'
      obtain ⟨hfirst, hl⟩ := List.pairwise_cons.mp hl
      obtain ⟨hfirst', hl'⟩ := List.pairwise_cons.mp hl'
      have hab : (a == b) = true := by
        rcases List.mem_cons.mp hb' with rfl | hb'
        · exact BEq.symm hb'a
        · rcases List.mem_cons.mp ha' with rfl | ha'
          · exact ha'b
          · -- each would come before the other
            have hbefore := (hfirst a' ha').congr hselfa (BEq.symm ha'b)
            exact absurd ((hfirst' b' hb').congr hselfb (BEq.symm hb'a)) hbefore.asymm
      refine .cons hab (ih hself hself' hl hl' fun k => ⟨?_, ?_⟩)
      · exact exists_beq_of_cons hab hfirst (fun k => (h k).mp) k
      · exact exists_beq_of_cons (BEq.symm hab) hfirst' (fun k => (h k).mpr) k

end Ascending

end TopologicalOrder
