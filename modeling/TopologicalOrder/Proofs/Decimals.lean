import Mathlib
import TopologicalOrder.Number.Decimal

/-!
# Reading decimals back

A run of decimal digits stands for its positional value, and reading yields that value
exactly if it fits into an unsigned word (`readDigits_eq_ok`): the bound is tested after
every digit, but the value of a run is never less than that of its beginning, so only
the whole value counts. With the sign that may stand before them, digits are a
`Numeral`. A text is read as an integer exactly if it is a numeral for it and the
integer fits into a signed word (`readDecimal_eq_ok`). What is written for an integer is
a numeral for it (`numeral_decimal`), so whatever fits is read back.
-/

namespace TopologicalOrder.Number

variable {b : UInt8} {acc d m n : Nat} {ds s : List UInt8} {negative : Bool} {v : Int}

/-- **A decimal digit.** -/
def IsDigit (b : UInt8) : Prop := 48 ≤ b.toNat ∧ b.toNat ≤ 57

/-- The positional value of a run of digits, after digits that gave `acc`. -/
def positional (acc : Nat) (ds : List UInt8) : Nat :=
  ds.foldl (fun m b => m * 10 + (b.toNat - 48)) acc

theorem le_positional (acc : Nat) (ds : List UInt8) : acc ≤ positional acc ds := by
  induction ds generalizing acc with
  | nil => exact le_refl acc
  | cons b ds ih =>
    calc acc
        ≤ acc * 10 + (b.toNat - 48) := by omega
      _ ≤ positional (acc * 10 + (b.toNat - 48)) ds := ih _

/-! ## Digits -/

theorem digitValue?_of_isDigit (h : IsDigit b) : digitValue? b = some (b.toNat - 48) := by
  unfold digitValue?
  refine if_pos ?_
  simp only [Bool.and_eq_true, decide_eq_true_eq, UInt8.le_iff_toNat_le]
  exact h

/-- The letters have values too, but none below ten. -/
theorem isDigit_of_digitValue? (h : digitValue? b = some d) (hd : d < 10) :
    IsDigit b ∧ d = b.toNat - 48 := by
  have hlower : (ascii 'a').toNat = 97 := rfl
  have hupper : (ascii 'A').toNat = 65 := rfl
  unfold digitValue? at h
  simp only [Bool.and_eq_true, decide_eq_true_eq, UInt8.le_iff_toNat_le] at h
  split at h
  · rename_i hdigit
    exact ⟨hdigit, (Option.some.inj h).symm⟩
  · split at h
    · have hvalue := Option.some.inj h
      omega
    · split at h
      · have hvalue := Option.some.inj h
        omega
      · exact nomatch h

/-- **What reading a run of digits yields**: its value, if that fits. -/
theorem readDigits_eq_ok (hacc : acc < 2 ^ 64) :
    readDigits 10 acc ds = .ok m ↔
      (∀ b ∈ ds, IsDigit b) ∧ positional acc ds = m ∧ m < 2 ^ 64 := by
  have hword : 1 <<< 64 = 2 ^ 64 := Nat.one_shiftLeft 64
  induction ds generalizing acc with
  | nil =>
    refine ⟨fun h => ?_, fun ⟨_, h, _⟩ => congrArg Except.ok h⟩
    obtain rfl := Except.ok.inj h
    exact ⟨List.forall_mem_nil _, rfl, hacc⟩
  | cons b ds ih =>
    unfold readDigits
    constructor
    · intro h
      split at h
      · exact nomatch h
      · rename_i d hvalue
        split at h
        · exact nomatch h
        · rename_i hd
          split at h
          · exact nomatch h
          · rename_i hfit
            obtain ⟨hdigit, rfl⟩ := isDigit_of_digitValue? hvalue (not_le.mp hd)
            rw [hword, not_le] at hfit
            obtain ⟨hrest, hm⟩ := (ih hfit).mp h
            exact ⟨List.forall_mem_cons.mpr ⟨hdigit, hrest⟩, hm⟩
    · rintro ⟨hdigits, rfl, hfit⟩
      obtain ⟨hdigit, hrest⟩ := List.forall_mem_cons.mp hdigits
      have hd : ¬ 10 ≤ b.toNat - 48 := by
        have hb := hdigit.2
        omega
      have hstep : acc * 10 + (b.toNat - 48) < 2 ^ 64 := lt_of_le_of_lt (le_positional _ ds) hfit
      simp only [digitValue?_of_isDigit hdigit, if_neg hd, hword, if_neg (not_le.mpr hstep)]
      exact (ih hstep).mpr ⟨hrest, rfl, hfit⟩

theorem readUnsigned_eq_ok :
    readUnsigned 10 ds = .ok m ↔
      ds ≠ [] ∧ (∀ b ∈ ds, IsDigit b) ∧ positional 0 ds = m ∧ m < 2 ^ 64 := by
  cases ds with
  | nil => exact ⟨(fun h => nomatch h), fun h => absurd rfl h.1⟩
  | cons b ds =>
    exact (readDigits_eq_ok (by decide)).trans ⟨fun h => ⟨List.cons_ne_nil b ds, h⟩, And.right⟩

/-! ## Written numbers -/

theorem toNat_ascii_of_isDigit {c : Char} (h : c.isDigit = true) :
    (ascii c).toNat = c.toNat ∧ IsDigit (ascii c) := by
  have hrange : 48 ≤ c.toNat ∧ c.toNat ≤ 57 := by
    simpa [Char.isDigit, UInt32.le_iff_toNat_le] using h
  have hbyte : (ascii c).toNat = c.toNat := by
    show (UInt8.ofNat c.toNat).toNat = c.toNat
    rw [UInt8.toNat_ofNat']
    omega
  exact ⟨hbyte, by rw [IsDigit, hbyte]; exact hrange⟩

theorem isDigit_of_mem_digits (h : b ∈ digits n) : IsDigit b := by
  obtain ⟨c, hc, rfl⟩ := List.mem_map.mp h
  exact (toNat_ascii_of_isDigit (Nat.isDigit_of_mem_toDigits (by decide) (le_refl 10) hc)).2

theorem digits_ne_nil (n : Nat) : digits n ≠ [] :=
  fun h => Nat.toDigits_ne_nil (List.map_eq_nil_iff.mp h)

theorem positional_map_ascii {cs : List Char} (h : ∀ c ∈ cs, c.isDigit = true) (acc : Nat) :
    positional acc (cs.map ascii) = Nat.ofDigitChars 10 cs acc := by
  induction cs generalizing acc with
  | nil => rfl
  | cons c cs ih =>
    obtain ⟨hc, hcs⟩ := List.forall_mem_cons.mp h
    rw [Nat.ofDigitChars_cons, ← ih hcs]
    show positional (acc * 10 + ((ascii c).toNat - 48)) (cs.map ascii) = _
    rw [(toNat_ascii_of_isDigit hc).1, Nat.mul_comm acc 10]
    rfl

/-- **The digits of a number have it as their value.** -/
theorem positional_digits (n : Nat) : positional 0 (digits n) = n :=
  (positional_map_ascii
    (fun _ hc => Nat.isDigit_of_mem_toDigits (by decide) (le_refl 10) hc) 0).trans
    Nat.ofDigitChars_ten_toDigits

/-- Digits carry no sign. -/
theorem splitSign_of_isDigit (h : ∀ b ∈ ds, IsDigit b) : splitSign ds = (false, ds) := by
  cases ds with
  | nil => rfl
  | cons b ds =>
    have hb : 48 ≤ b.toNat := (h b List.mem_cons_self).1
    have hminus : b ≠ ascii '-' := by
      rintro rfl
      exact absurd hb (by decide)
    have hplus : b ≠ ascii '+' := by
      rintro rfl
      exact absurd hb (by decide)
    rw [splitSign, if_neg hminus, if_neg hplus]

/-! ## Signs -/

/-- **A numeral and the integer it stands for**: decimal digits, one at least, and at most
one sign before them. -/
inductive Numeral : List UInt8 → Int → Prop
  /-- Digits alone. -/
  | unsigned {ds : List UInt8} (hne : ds ≠ []) (hdigits : ∀ b ∈ ds, IsDigit b) :
      Numeral ds (positional 0 ds)
  /-- A plus sign changes nothing. -/
  | plus {ds : List UInt8} (hne : ds ≠ []) (hdigits : ∀ b ∈ ds, IsDigit b) :
      Numeral (ascii '+' :: ds) (positional 0 ds)
  /-- A minus sign gives the opposite. -/
  | minus {ds : List UInt8} (hne : ds ≠ []) (hdigits : ∀ b ∈ ds, IsDigit b) :
      Numeral (ascii '-' :: ds) (-(positional 0 ds : Int))

theorem numeral_decimal (v : Int) : Numeral (decimal v) v := by
  cases v with
  | ofNat n =>
    have h := Numeral.unsigned (digits_ne_nil n) fun _ => isDigit_of_mem_digits
    rw [positional_digits] at h
    exact h
  | negSucc n =>
    have h := Numeral.minus (digits_ne_nil (n + 1)) fun _ => isDigit_of_mem_digits
    rw [positional_digits] at h
    exact h

/-- A numeral ends with its digits, and there is at least one. -/
theorem Numeral.eq_append (h : Numeral s v) :
    ∃ sign ds, s = sign ++ ds ∧ ds ≠ [] ∧ (∀ b ∈ ds, IsDigit b) ∧
      ∀ b ∈ sign, b = ascii '+' ∨ b = ascii '-' := by
  cases h with
  | unsigned hne hdigits => exact ⟨[], s, rfl, hne, hdigits, List.forall_mem_nil _⟩
  | @plus ds hne hdigits => exact ⟨[ascii '+'], ds, rfl, hne, hdigits, by simp⟩
  | @minus ds hne hdigits => exact ⟨[ascii '-'], ds, rfl, hne, hdigits, by simp⟩

theorem Numeral.byte_cases (h : Numeral s v) (hb : b ∈ s) :
    IsDigit b ∨ b = ascii '+' ∨ b = ascii '-' := by
  obtain ⟨sign, ds, rfl, -, hdigits, hsign⟩ := h.eq_append
  exact (List.mem_append.mp hb).elim (fun hb => Or.inr (hsign b hb)) fun hb => Or.inl (hdigits b hb)

/-- A numeral has no arrow in it. -/
theorem Numeral.arrow_not_mem (h : Numeral s v) : ascii '>' ∉ s := fun hmem => by
  rcases h.byte_cases hmem with hdigit | hplus | hminus
  · exact absurd hdigit.2 (by decide)
  · exact absurd hplus (by decide)
  · exact absurd hminus (by decide)

/-- A minus sign at the end of a text is no part of a numeral. -/
theorem Numeral.ne_concat_minus (h : Numeral s v) (l : List UInt8) : s ≠ l ++ [ascii '-'] := by
  intro hs
  obtain ⟨sign, ds, rfl, hne, hdigits, -⟩ := h.eq_append
  have hlast := congrArg List.getLast? hs
  rw [List.getLast?_append_of_ne_nil _ hne, List.getLast?_concat] at hlast
  exact absurd (hdigits _ (List.mem_of_getLast? hlast)).1 (by decide)

/-- **What is split off is the sign**, and the rest are the digits. -/
theorem numeral_iff_of_splitSign (hsign : splitSign s = (negative, ds)) :
    Numeral s v ↔ (ds ≠ [] ∧ ∀ b ∈ ds, IsDigit b) ∧
      v = if negative then -(positional 0 ds : Int) else positional 0 ds := by
  constructor
  · intro h
    cases h with
    | unsigned hne hdigits =>
      obtain ⟨rfl, rfl⟩ := Prod.mk.inj ((splitSign_of_isDigit hdigits).symm.trans hsign)
      exact ⟨⟨hne, hdigits⟩, rfl⟩
    | @plus ds' hne hdigits =>
      have hplus : splitSign (ascii '+' :: ds') = (false, ds') := rfl
      obtain ⟨rfl, rfl⟩ := Prod.mk.inj (hplus.symm.trans hsign)
      exact ⟨⟨hne, hdigits⟩, rfl⟩
    | @minus ds' hne hdigits =>
      have hminus : splitSign (ascii '-' :: ds') = (true, ds') := rfl
      obtain ⟨rfl, rfl⟩ := Prod.mk.inj (hminus.symm.trans hsign)
      exact ⟨⟨hne, hdigits⟩, rfl⟩
  · rintro ⟨⟨hne, hdigits⟩, rfl⟩
    cases s with
    | nil =>
      obtain ⟨-, rfl⟩ := Prod.mk.inj hsign
      exact absurd rfl hne
    | cons b bs =>
      rw [splitSign] at hsign
      split at hsign
      · rename_i hb
        obtain ⟨rfl, rfl⟩ := Prod.mk.inj hsign
        exact hb ▸ .minus hne hdigits
      · split at hsign
        · rename_i hb
          obtain ⟨rfl, rfl⟩ := Prod.mk.inj hsign
          exact hb ▸ .plus hne hdigits
        · obtain ⟨rfl, rfl⟩ := Prod.mk.inj hsign
          exact .unsigned hne hdigits

/-- A magnitude with its sign fits if the integer it gives does. -/
theorem signed_eq_ok :
    signed negative m = .ok v ↔
      v = (if negative then -(m : Int) else m) ∧ -2 ^ 63 ≤ v ∧ v < 2 ^ 63 := by
  have hword : 1 <<< 63 = 2 ^ 63 := Nat.one_shiftLeft 63
  unfold signed
  rw [hword]
  cases negative with
  | true =>
    rw [if_pos rfl, if_pos rfl]
    split
    · refine iff_of_false (fun h => nomatch h) ?_
      rintro ⟨rfl, hlow, -⟩
      omega
    · rw [Except.ok.injEq]
      refine ⟨?_, fun h => h.1.symm⟩
      rintro rfl
      exact ⟨rfl, by omega, by omega⟩
  | false =>
    rw [if_neg Bool.false_ne_true, if_neg Bool.false_ne_true]
    split
    · refine iff_of_false (fun h => nomatch h) ?_
      rintro ⟨rfl, -, hhigh⟩
      omega
    · rw [Except.ok.injEq]
      refine ⟨?_, fun h => h.1.symm⟩
      rintro rfl
      exact ⟨rfl, by omega, by omega⟩

/-- **What is read is a numeral, and its integer fits into a signed word.** -/
theorem readDecimal_eq_ok :
    readDecimal s = .ok v ↔ Numeral s v ∧ -2 ^ 63 ≤ v ∧ v < 2 ^ 63 := by
  obtain ⟨⟨negative, ds⟩, hsign⟩ : ∃ p, splitSign s = p := ⟨_, rfl⟩
  rw [numeral_iff_of_splitSign hsign]
  unfold readDecimal readSigned
  rw [hsign]
  dsimp only
  constructor
  · intro h
    split at h
    · exact nomatch h
    · rename_i m hread
      obtain ⟨hne, hdigits, rfl, -⟩ := readUnsigned_eq_ok.mp hread
      obtain ⟨hv, hfits⟩ := signed_eq_ok.mp h
      exact ⟨⟨⟨hne, hdigits⟩, hv⟩, hfits⟩
  · rintro ⟨⟨⟨hne, hdigits⟩, hv⟩, hlow, hhigh⟩
    -- a magnitude that fits with its sign is far below the bound on unsigned ones
    have hunsigned : positional 0 ds < 2 ^ 64 := by
      cases negative with
      | true =>
        rw [if_pos rfl] at hv
        omega
      | false =>
        rw [if_neg Bool.false_ne_true] at hv
        omega
    rw [readUnsigned_eq_ok.mpr ⟨hne, hdigits, rfl, hunsigned⟩]
    exact signed_eq_ok.mpr ⟨hv, hlow, hhigh⟩

end TopologicalOrder.Number
