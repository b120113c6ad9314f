import Mathlib
import TopologicalOrder.Graph.EdgeList
import TopologicalOrder.Proofs.Decimals

/-!
# How an edge is spelled

A vertex is spelled by a numeral for an integer that is not negative and fits into a
signed word, an edge by two vertices with an arrow between them, `>` or `->`
(`SpellsVertex`, `SpellsEdge`). An edge is read exactly from its spellings
(`readEdge_eq_ok`).

The two arrows overlap, and both share a byte with the sign of a number: `0>-0` has no
long arrow, `-0->1` has one, and `0-->1` is nothing. The search for the arrow does not
look at the rest of the text. What makes it find the right one is that a numeral has no
byte `>` and ends with a digit. So a spelling has one byte `>` only, and the byte before
it is a minus sign exactly if the arrow is the long one (`cutArrow_short`,
`cutArrow_long`).

A list of texts is read as the list of the edges they spell, or not at all because of
the first that spells none (`readEdges_eq_ok`, `readEdges_eq_error`).
-/

namespace TopologicalOrder

open Number

variable {b : UInt8} {e : Edge} {es : List Edge} {l mark r s token : List UInt8} {u v : Int}
  {tokens : List (List UInt8)}

/-! ## Spellings -/

/-- **A vertex as it may be spelled.** A minus sign is possible only for zero. -/
structure SpellsVertex (s : List UInt8) (v : Int) : Prop where
  /-- The text is a numeral for the vertex. -/
  numeral : Numeral s v
  /-- The vertex is not negative. -/
  nonneg : 0 ≤ v
  /-- It fits into a signed word. -/
  le_max : v ≤ 2 ^ 63 - 1

/-- **An edge as it may be spelled**: its ends, and an arrow between them. -/
inductive SpellsEdge : List UInt8 → Edge → Prop
  /-- The arrow is the short one. -/
  | short {l r : List UInt8} {e : Edge} (hl : SpellsVertex l e.source)
      (hr : SpellsVertex r e.target) : SpellsEdge (l ++ ascii '>' :: r) e
  /-- The arrow is the long one. -/
  | long {l r : List UInt8} {e : Edge} (hl : SpellsVertex l e.source)
      (hr : SpellsVertex r e.target) : SpellsEdge (l ++ ascii '-' :: ascii '>' :: r) e

theorem SpellsEdge.nonneg (h : SpellsEdge token e) : 0 ≤ e.source ∧ 0 ≤ e.target := by
  cases h with
  | short hl hr => exact ⟨hl.nonneg, hr.nonneg⟩
  | long hl hr => exact ⟨hl.nonneg, hr.nonneg⟩

/-- **A vertex is read exactly from its spellings.** -/
theorem readVertex_eq_ok : readVertex s = .ok v ↔ SpellsVertex s v := by
  unfold readVertex
  constructor
  · intro h
    split at h
    · exact nomatch h
    · rename_i w hread
      split at h
      · exact nomatch h
      · rename_i hnonneg
        obtain rfl := Except.ok.inj h
        obtain ⟨hnumeral, -, hhigh⟩ := readDecimal_eq_ok.mp hread
        exact ⟨hnumeral, not_lt.mp hnonneg, by omega⟩
  · rintro ⟨hnumeral, hnonneg, hmax⟩
    rw [readDecimal_eq_ok.mpr ⟨hnumeral, by omega, by omega⟩]
    exact if_neg (not_lt.mpr hnonneg)

/-! ## Arrows -/

/-- What is cut at a mark is a text around it. -/
theorem eq_append_of_cutAt (h : cutAt mark s = some (l, r)) : s = l ++ (mark ++ r) := by
  induction s generalizing l with
  | nil => exact nomatch h
  | cons b s ih =>
    rw [cutAt] at h
    split at h
    · rename_i hmark
      obtain ⟨rest, hrest⟩ := List.isPrefixOf_iff_prefix.mp hmark
      obtain ⟨rfl, rfl⟩ := Prod.mk.inj (Option.some.inj h)
      rw [← hrest, List.drop_left, List.nil_append]
    · obtain ⟨⟨l', r'⟩, hcut, hsides⟩ := Option.map_eq_some_iff.mp h
      obtain ⟨rfl, rfl⟩ := Prod.mk.inj hsides
      rw [ih hcut, List.cons_append]

/-- A text around a mark is cut, there or before. -/
theorem exists_cutAt (hmark : mark ≠ []) (l r : List UInt8) :
    ∃ l' r', cutAt mark (l ++ (mark ++ r)) = some (l', r') := by
  induction l with
  | nil =>
    obtain ⟨m, ms, rfl⟩ := List.exists_cons_of_ne_nil hmark
    have hfound : (m :: ms).isPrefixOf (m :: (ms ++ r)) = true :=
      List.isPrefixOf_iff_prefix.mpr ⟨r, rfl⟩
    show ∃ l' r', cutAt (m :: ms) (m :: (ms ++ r)) = some (l', r')
    rw [cutAt, if_pos hfound]
    exact ⟨_, _, rfl⟩
  | cons b l ih =>
    obtain ⟨l', r', hcut⟩ := ih
    rw [List.cons_append, cutAt, hcut]
    split
    · exact ⟨_, _, rfl⟩
    · exact ⟨_, _, rfl⟩

theorem bytes_longArrow : asciiBytes "->" = [ascii '-', ascii '>'] := by decide

theorem bytes_shortArrow : asciiBytes ">" = [ascii '>'] := by decide

/-- What is cut at an arrow is a text around one of the two. -/
theorem eq_append_of_cutArrow (h : cutArrow token = some (l, r)) :
    token = l ++ ascii '>' :: r ∨ token = l ++ ascii '-' :: ascii '>' :: r := by
  unfold cutArrow at h
  rw [bytes_longArrow, bytes_shortArrow] at h
  split at h
  · rename_i sides hcut
    obtain rfl := Option.some.inj h
    exact Or.inr (eq_append_of_cutAt hcut)
  · exact Or.inl (eq_append_of_cutAt h)

/-- **Around the long arrow numerals are cut there.** -/
theorem cutArrow_long (hl : Numeral l u) (hr : Numeral r v) :
    cutArrow (l ++ ascii '-' :: ascii '>' :: r) = some (l, r) := by
  have harrow : ascii '>' ∉ l ++ [ascii '-'] := by
    simpa using ⟨hl.arrow_not_mem, by decide⟩
  obtain ⟨l', r', hcut⟩ := exists_cutAt (List.cons_ne_nil (ascii '-') [ascii '>']) l r
  -- there is one byte `>`, so the long arrow that is found is the one that is there
  have hsame : (l ++ [ascii '-']) ++ ascii '>' :: r = (l' ++ [ascii '-']) ++ ascii '>' :: r' := by
    simpa using eq_append_of_cutAt hcut
  obtain ⟨hleft, -, rfl⟩ := (List.append_cons_inj_of_notMem harrow hr.arrow_not_mem).mp hsame
  obtain rfl := List.append_cancel_right hleft
  have hlong : cutAt [ascii '-', ascii '>'] (l ++ ascii '-' :: ascii '>' :: r) = some (l, r) := hcut
  unfold cutArrow
  rw [bytes_longArrow, hlong]

/-- **Around the short arrow numerals are cut there**, since the left one does not end
with a minus sign. -/
theorem cutArrow_short (hl : Numeral l u) (hr : Numeral r v) :
    cutArrow (l ++ ascii '>' :: r) = some (l, r) := by
  have hunique : ∀ {l' r' : List UInt8}, l ++ ascii '>' :: r = l' ++ ascii '>' :: r' →
      l = l' ∧ r = r' := fun h =>
    ((List.append_cons_inj_of_notMem hl.arrow_not_mem hr.arrow_not_mem).mp h).imp_right And.right
  have hlong : cutAt [ascii '-', ascii '>'] (l ++ ascii '>' :: r) = none := by
    refine Option.eq_none_iff_forall_ne_some.mpr fun ⟨l', r'⟩ hcut => ?_
    have hsame : l ++ ascii '>' :: r = (l' ++ [ascii '-']) ++ ascii '>' :: r' := by
      simpa using eq_append_of_cutAt hcut
    exact hl.ne_concat_minus l' (hunique hsame).1
  obtain ⟨l', r', hcut⟩ := exists_cutAt (List.cons_ne_nil (ascii '>') []) l r
  obtain ⟨rfl, rfl⟩ := hunique (eq_append_of_cutAt hcut)
  unfold cutArrow
  rw [bytes_longArrow, bytes_shortArrow, hlong]
  exact hcut

/-! ## Edges -/

/-- **An edge is read exactly from its spellings.** -/
theorem readEdge_eq_ok : readEdge token = .ok e ↔ SpellsEdge token e := by
  unfold readEdge
  constructor
  · intro h
    split at h
    · exact nomatch h
    · rename_i l r hcut
      split at h
      · exact nomatch h
      · rename_i u hu
        split at h
        · exact nomatch h
        · rename_i v hv
          obtain rfl := Except.ok.inj h
          have hl : SpellsVertex l u := readVertex_eq_ok.mp hu
          have hr : SpellsVertex r v := readVertex_eq_ok.mp hv
          rcases eq_append_of_cutArrow hcut with rfl | rfl
          · exact .short hl hr
          · exact .long hl hr
  · intro h
    cases h with
    | short hl hr =>
      rw [cutArrow_short hl.numeral hr.numeral]
      simp only [readVertex_eq_ok.mpr hl, readVertex_eq_ok.mpr hr]
    | long hl hr =>
      rw [cutArrow_long hl.numeral hr.numeral]
      simp only [readVertex_eq_ok.mpr hl, readVertex_eq_ok.mpr hr]

/-- **A list of texts is read as the edges they spell**, one for each. -/
theorem readEdges_eq_ok : readEdges tokens = .ok es ↔ List.Forall₂ SpellsEdge tokens es := by
  induction tokens generalizing es with
  | nil =>
    rw [List.forall₂_nil_left_iff, readEdges, Except.ok.injEq, eq_comm]
  | cons token tokens ih =>
    rw [List.forall₂_cons_left_iff, readEdges]
    constructor
    · intro h
      split at h
      · exact nomatch h
      · rename_i e he
        split at h
        · exact nomatch h
        · rename_i rest hrest
          exact ⟨e, rest, readEdge_eq_ok.mp he, ih.mp hrest, (Except.ok.inj h).symm⟩
    · rintro ⟨e, rest, he, hrest, rfl⟩
      simp only [readEdge_eq_ok.mpr he, ih.mpr hrest]

theorem nonneg_of_forall₂ (h : List.Forall₂ SpellsEdge tokens es) :
    ∀ e ∈ es, 0 ≤ e.source ∧ 0 ≤ e.target := by
  induction h with
  | nil => exact List.forall_mem_nil _
  | cons hfirst _ ih => exact List.forall_mem_cons.mpr ⟨hfirst.nonneg, ih⟩

theorem exists_readEdges_iff :
    (∃ es, readEdges tokens = .ok es) ↔ ∀ token ∈ tokens, ∃ e, SpellsEdge token e := by
  simp only [readEdges_eq_ok]
  induction tokens with
  | nil => exact iff_of_true ⟨[], .nil⟩ (List.forall_mem_nil _)
  | cons token tokens ih =>
    rw [List.forall_mem_cons, ← ih]
    constructor
    · rintro ⟨es, hes⟩
      obtain ⟨e, rest, he, hrest, rfl⟩ := List.forall₂_cons_left_iff.mp hes
      exact ⟨⟨e, he⟩, ⟨rest, hrest⟩⟩
    · rintro ⟨⟨e, he⟩, ⟨es, hes⟩⟩
      exact ⟨e :: es, .cons he hes⟩

/-- **A list of texts is not read because of the first that spells no edge.** -/
theorem readEdges_eq_error {err : EdgeListError} :
    readEdges tokens = .error err ↔
      ∃ before after, tokens = before ++ err.token :: after ∧
        (∀ token ∈ before, ∃ e, SpellsEdge token e) ∧
        readEdge err.token = .error err.cause := by
  induction tokens with
  | nil =>
    refine iff_of_false (fun h => nomatch h) ?_
    rintro ⟨before, after, h, -⟩
    exact List.append_ne_nil_of_right_ne_nil _ (List.cons_ne_nil _ _) h.symm
  | cons token tokens ih =>
    rw [readEdges]
    constructor
    · intro h
      split at h
      · rename_i cause hcause
        obtain rfl := Except.error.inj h
        exact ⟨[], tokens, rfl, List.forall_mem_nil _, hcause⟩
      · rename_i e he
        split at h
        · rename_i err' hrest
          obtain rfl := Except.error.inj h
          obtain ⟨before, after, rfl, hbefore, hfault⟩ := ih.mp hrest
          exact ⟨token :: before, after, rfl,
            List.forall_mem_cons.mpr ⟨⟨e, readEdge_eq_ok.mp he⟩, hbefore⟩, hfault⟩
        · exact nomatch h
    · rintro ⟨before, after, htokens, hbefore, hfault⟩
      cases before with
      | nil =>
        obtain ⟨rfl, -⟩ := List.cons.inj htokens
        rw [hfault]
      | cons first before =>
        obtain ⟨rfl, hrest⟩ := List.cons.inj htokens
        obtain ⟨⟨e, he⟩, hbefore⟩ := List.forall_mem_cons.mp hbefore
        simp only [readEdge_eq_ok.mpr he, ih.mpr ⟨before, after, hrest, hbefore, hfault⟩]

end TopologicalOrder
