import Mathlib
import TopologicalOrder.Proofs.EdgeGrammar

/-!
# Edge lists as text

Pieces of text are written one after the other with separators around them, at least one
between any two (`Separated`); joining them by separators is one way to do so
(`separated_intercalate`). A text is cut into pieces that are not empty and free of
separators, and there is one way only to do so (`edgeTokens_eq_iff`).

Together with the grammar of single edges this says what a text has to be to be read as
an edge list, which list that is, and which piece is to blame otherwise
(`parseEdgeList_accepts_grammar`).

Whatever its ends are, an edge is written as two numerals around an arrow, so its text is
cut where it was put together. A written edge list is therefore read back, whichever
separators stand around the edges and whichever of the arrows is used, unless an end is
negative; then the first such end is reported (`parseEdgeList_undoes_render`).
-/

namespace TopologicalOrder

open Number

variable {b : UInt8} {e : Edge} {es : List Edge} {gap run s text token : List UInt8}
  {tokens : List (List UInt8)} {v : Int}

/-! ## Pieces and separators -/

/-- **Pieces of text with separators around them.** -/
inductive Separated : List (List UInt8) → List UInt8 → Prop
  /-- No piece: separators only. -/
  | blank {gap : List UInt8} (hgap : ∀ b ∈ gap, isSeparator b = true) : Separated [] gap
  /-- A piece behind any number of separators; what follows it, if anything does,
  begins with a separator. -/
  | piece {gap token rest : List UInt8} {tokens : List (List UInt8)}
      (hgap : ∀ b ∈ gap, isSeparator b = true)
      (hrest : ∀ b ∈ rest.head?, isSeparator b = true) (h : Separated tokens rest) :
      Separated (token :: tokens) (gap ++ token ++ rest)

theorem Separated.append_left (hgap : ∀ b ∈ gap, isSeparator b = true)
    (h : Separated tokens text) : Separated tokens (gap ++ text) := by
  have happend : ∀ {gap' : List UInt8}, (∀ b ∈ gap', isSeparator b = true) →
      ∀ b ∈ gap ++ gap', isSeparator b = true := fun hgap' b hb =>
    (List.mem_append.mp hb).elim (hgap b) (hgap' b)
  cases h with
  | blank hgap' => exact .blank (happend hgap')
  | piece hgap' hrest h =>
    rw [← List.append_assoc, ← List.append_assoc]
    exact .piece (happend hgap') hrest h

/-- **Joining pieces by separators separates them.** -/
theorem separated_intercalate (hne : gap ≠ []) (hgap : ∀ b ∈ gap, isSeparator b = true)
    (tokens : List (List UInt8)) : Separated tokens (gap.intercalate tokens) := by
  obtain ⟨b, bs, rfl⟩ := List.exists_cons_of_ne_nil hne
  induction tokens with
  | nil => exact .blank (List.forall_mem_nil _)
  | cons token tokens ih =>
    cases tokens with
    | nil =>
      have hone : Separated [token] ([] ++ token ++ []) :=
        .piece (List.forall_mem_nil _) (by simp) (.blank (List.forall_mem_nil _))
      rw [List.nil_append, List.append_nil] at hone
      rw [List.intercalate_singleton]
      exact hone
    | cons next tokens =>
      rw [List.intercalate_cons_cons, List.append_assoc]
      refine .piece (List.forall_mem_nil _) ?_ (ih.append_left hgap)
      intro c hc
      obtain rfl : b = c := Option.some.inj hc
      exact hgap b List.mem_cons_self

/-- Separators between pieces are passed over. -/
theorem edgeTokensFrom_gap (hgap : ∀ b ∈ gap, isSeparator b = true) (s : List UInt8) :
    edgeTokensFrom [] (gap ++ s) = edgeTokensFrom [] s := by
  induction gap with
  | nil => rfl
  | cons b gap ih =>
    obtain ⟨hb, hgap⟩ := List.forall_mem_cons.mp hgap
    rw [List.cons_append, edgeTokensFrom, if_pos hb, if_pos List.isEmpty_nil, ih hgap]

/-- Bytes that separate nothing go to the piece that has been begun. -/
theorem edgeTokensFrom_token (htoken : ∀ b ∈ token, isSeparator b = false) (run s : List UInt8) :
    edgeTokensFrom run (token ++ s) = edgeTokensFrom (token.reverse ++ run) s := by
  induction token generalizing run with
  | nil => rfl
  | cons b token ih =>
    obtain ⟨hb, htoken⟩ := List.forall_mem_cons.mp htoken
    rw [List.cons_append, edgeTokensFrom, if_neg (Bool.not_eq_true _ ▸ hb), ih htoken,
      List.reverse_cons, List.append_assoc]
    rfl

/-- A piece ends with the text or before a separator. -/
theorem edgeTokensFrom_end (hrun : run ≠ []) (hs : ∀ b ∈ s.head?, isSeparator b = true) :
    edgeTokensFrom run s = run.reverse :: edgeTokensFrom [] s := by
  have hbegun : ¬ run.isEmpty = true := fun h => hrun (List.isEmpty_iff.mp h)
  cases s with
  | nil => rw [edgeTokensFrom, if_neg hbegun, edgeTokensFrom, if_pos List.isEmpty_nil]
  | cons b s =>
    have hb : isSeparator b = true := hs b rfl
    rw [edgeTokensFrom, if_pos hb, if_neg hbegun, edgeTokensFrom, if_pos hb,
      if_pos List.isEmpty_nil]

/-- **A piece of text that separators do not divide.** -/
def IsPiece (token : List UInt8) : Prop := token ≠ [] ∧ ∀ b ∈ token, isSeparator b = false

/-- **Cutting a text returns the pieces it was made of.** -/
theorem edgeTokens_of_separated (h : Separated tokens text)
    (htokens : ∀ token ∈ tokens, IsPiece token) : edgeTokens text = tokens := by
  unfold edgeTokens
  induction h with
  | @blank gap hgap =>
    have hall := edgeTokensFrom_gap hgap []
    rw [List.append_nil] at hall
    exact hall
  | @piece gap token rest tokens hgap hrest _ ih =>
    obtain ⟨⟨hne, hfree⟩, htokens⟩ := List.forall_mem_cons.mp htokens
    have hrun : token.reverse ≠ [] := fun hnil => hne (List.reverse_eq_nil_iff.mp hnil)
    rw [List.append_assoc, edgeTokensFrom_gap hgap, edgeTokensFrom_token hfree, List.append_nil,
      edgeTokensFrom_end hrun hrest, List.reverse_reverse, ih htokens]

/-- **The maximal runs of a text without separators**: separators stand around them, and
they hold none. -/
structure MaximalRuns (text : List UInt8) (tokens : List (List UInt8)) : Prop where
  /-- The text is the pieces with separators around them. -/
  separated : Separated tokens text
  /-- No piece is empty or holds a separator. -/
  isPiece : ∀ token ∈ tokens, IsPiece token

/-- A text in front of which only separators are put has the same runs. -/
theorem MaximalRuns.cons (hb : isSeparator b = true) (h : MaximalRuns text tokens) :
    MaximalRuns (b :: text) tokens :=
  ⟨h.separated.append_left (List.forall_mem_singleton.mpr hb), h.isPiece⟩

/-- A run in front of a text that begins with a separator is one run more. -/
theorem MaximalRuns.piece (htoken : IsPiece token) (htext : ∀ b ∈ text.head?, isSeparator b = true)
    (h : MaximalRuns text tokens) : MaximalRuns (token ++ text) (token :: tokens) :=
  ⟨.piece (List.forall_mem_nil _) htext h.separated, List.forall_mem_cons.mpr ⟨htoken, h.isPiece⟩⟩

/-- What is cut are the runs of the text together with the piece that has been begun. -/
theorem maximalRuns_edgeTokensFrom (hrun : ∀ b ∈ run, isSeparator b = false) (s : List UInt8) :
    MaximalRuns (run.reverse ++ s) (edgeTokensFrom run s) := by
  -- the piece that has been begun is a run as soon as it is not empty
  have hpiece : ∀ {run : List UInt8}, (∀ b ∈ run, isSeparator b = false) → ¬ run.isEmpty = true →
      IsPiece run.reverse := fun hrun hne =>
    ⟨fun hnil => hne (List.isEmpty_iff.mpr (List.reverse_eq_nil_iff.mp hnil)),
      fun b hb => hrun b (List.mem_reverse.mp hb)⟩
  have hnone : MaximalRuns [] [] := ⟨.blank (List.forall_mem_nil _), List.forall_mem_nil _⟩
  induction s generalizing run with
  | nil =>
    rw [edgeTokensFrom]
    split
    · rename_i hempty
      rw [List.isEmpty_iff.mp hempty]
      exact hnone
    · rename_i hne
      exact hnone.piece (hpiece hrun hne) (by simp)
  | cons b s ih =>
    rw [edgeTokensFrom]
    split
    · rename_i hb
      have hrest : MaximalRuns (b :: s) (edgeTokensFrom [] s) :=
        (ih (List.forall_mem_nil _)).cons hb
      split
      · rename_i hempty
        rw [List.isEmpty_iff.mp hempty]
        exact hrest
      · rename_i hne
        refine hrest.piece (hpiece hrun hne) fun c hc => ?_
        obtain rfl : b = c := Option.some.inj hc
        exact hb
    · rename_i hb
      have hmore := ih (List.forall_mem_cons.mpr ⟨Bool.not_eq_true _ ▸ hb, hrun⟩)
      rw [List.reverse_cons, List.append_assoc] at hmore
      exact hmore

/-- **A text is cut into its maximal runs**, and has no others. -/
theorem edgeTokens_eq_iff : edgeTokens s = tokens ↔ MaximalRuns s tokens := by
  refine ⟨?_, fun h => edgeTokens_of_separated h.separated h.isPiece⟩
  rintro rfl
  exact maximalRuns_edgeTokensFrom (List.forall_mem_nil _) s

/-! ## What is read as an edge list -/

/-- **A text is read as an edge list exactly if every maximal run without separators
spells an edge.** The list then holds the edges that the runs spell, one for each and in
their order. Otherwise the text is refused for its syntax, and the run that is reported is
the first that spells no edge. -/
theorem parseEdgeList_accepts_grammar (s : List UInt8) :
    (∀ runs, MaximalRuns s runs ↔ runs = edgeTokens s) ∧
      ((∃ es, parseEdgeList s = .ok es) ↔ ∀ run ∈ edgeTokens s, ∃ e, SpellsEdge run e) ∧
      (∀ es, parseEdgeList s = .ok es ↔ List.Forall₂ SpellsEdge (edgeTokens s) es) ∧
      ∀ err, parseEdgeList s = .error err →
        ∃ before after, edgeTokens s = before ++ err.token :: after ∧
          (∀ run ∈ before, ∃ e, SpellsEdge run e) ∧ (¬ ∃ e, SpellsEdge err.token e) ∧
          ∃ reason : String, err.message =
            s!"digraph: bad edge syntax: {Text.quote err.token}: {reason}" := by
  have hok : ∀ es, parseEdgeList s = .ok es ↔ List.Forall₂ SpellsEdge (edgeTokens s) es :=
    fun es => readEdges_eq_ok
  refine ⟨fun runs => edgeTokens_eq_iff.symm.trans eq_comm, exists_readEdges_iff, hok,
    fun err herr => ?_⟩
  obtain ⟨before, after, hsplit, hbefore, hfault⟩ := readEdges_eq_error.mp herr
  refine ⟨before, after, hsplit, hbefore, fun ⟨e, he⟩ => ?_, err.cause.message, rfl⟩
  exact nomatch hfault.symm.trans (readEdge_eq_ok.mpr he)

example : parseEdgeList (asciiBytes " 0>-0;;+7->007\n") = .ok [⟨0, 0⟩, ⟨7, 7⟩] := by
  decide +kernel

example : parseEdgeList (asciiBytes "-0->1,0-->1,2") =
    .error { token := asciiBytes "0-->1", cause := .notNumber (asciiBytes "0-") .malformed } := by
  decide +kernel

/-- **No vertex that is read is negative.** -/
theorem nonneg_of_parseEdgeList (h : parseEdgeList text = .ok es) :
    ∀ e ∈ es, 0 ≤ e.source ∧ 0 ≤ e.target :=
  nonneg_of_forall₂ (readEdges_eq_ok.mp h)

/-! ## Written edges -/

/-- **An edge that can be read**: its ends are not negative and fit into a signed
word. -/
def Edge.Readable (e : Edge) : Prop :=
  (0 ≤ e.source ∧ e.source < 2 ^ 63) ∧ (0 ≤ e.target ∧ e.target < 2 ^ 63)

/-- **An edge whose ends fit into a signed word** each. -/
def Edge.FitsWords (e : Edge) : Prop :=
  (-2 ^ 63 ≤ e.source ∧ e.source < 2 ^ 63) ∧ (-2 ^ 63 ≤ e.target ∧ e.target < 2 ^ 63)

/-- The bytes of a numeral separate nothing. -/
theorem isSeparator_of_mem_numeral (h : Numeral s v) (hb : b ∈ s) : isSeparator b = false := by
  rcases h.byte_cases hb with ⟨hlow, hhigh⟩ | rfl | rfl
  · have hbytes : asciiBytes ",; \t\n\r" = [44, 59, 32, 9, 10, 13] := by decide
    unfold isSeparator
    rw [hbytes, List.contains_eq_mem, decide_eq_false_iff_not]
    intro hmem
    simp only [List.mem_cons, List.not_mem_nil, or_false] at hmem
    rcases hmem with rfl | rfl | rfl | rfl | rfl | rfl <;> contradiction
  · decide
  · decide

theorem readVertex_decimal (hlow : -2 ^ 63 ≤ v) (hhigh : v < 2 ^ 63) :
    readVertex (decimal v) = if v < 0 then .error (.negative v) else .ok v := by
  unfold readVertex
  rw [readDecimal_eq_ok.mpr ⟨numeral_decimal v, hlow, hhigh⟩]

/-- The long arrow in place of the short one, wherever that occurs. -/
def lengthenArrows (s : List UInt8) : List UInt8 :=
  s.flatMap fun b => if b = ascii '>' then asciiBytes "->" else [b]

/-- **The two ways to write an edge**, with the short arrow or with the long one. -/
inductive Writes : (Edge → List UInt8) → Prop
  /-- The arrow is the short one. -/
  | short : Writes Edge.render
  /-- The arrow is the long one. -/
  | long : Writes fun e => lengthenArrows e.render

theorem lengthenArrows_of_not_mem (h : ascii '>' ∉ s) : lengthenArrows s = s := by
  unfold lengthenArrows
  induction s with
  | nil => rfl
  | cons b s ih =>
    obtain ⟨hb, hs⟩ := not_or.mp (mt List.mem_cons.mpr h)
    rw [List.flatMap_cons, if_neg (Ne.symm hb), ih hs]
    rfl

theorem lengthenArrows_render (e : Edge) :
    lengthenArrows e.render = decimal e.source ++ ascii '-' :: ascii '>' :: decimal e.target := by
  have hsource := lengthenArrows_of_not_mem (numeral_decimal e.source).arrow_not_mem
  have htarget := lengthenArrows_of_not_mem (numeral_decimal e.target).arrow_not_mem
  unfold lengthenArrows at *
  rw [Edge.render, List.flatMap_append, List.flatMap_cons, if_pos rfl, hsource, htarget,
    bytes_longArrow]
  rfl

section Writes

variable {write : Edge → List UInt8} (hwrite : Writes write)
include hwrite

/-- A written edge is cut where it was put together, whatever its ends are. -/
theorem Writes.cutArrow_eq (e : Edge) :
    cutArrow (write e) = some (decimal e.source, decimal e.target) := by
  cases hwrite with
  | short => exact cutArrow_short (numeral_decimal _) (numeral_decimal _)
  | long =>
    dsimp only
    rw [lengthenArrows_render]
    exact cutArrow_long (numeral_decimal _) (numeral_decimal _)

theorem Writes.isPiece (e : Edge) : IsPiece (write e) := by
  have hnumeral : ∀ v, ∀ b ∈ decimal v, isSeparator b = false := fun v b hb =>
    isSeparator_of_mem_numeral (numeral_decimal v) hb
  cases hwrite with
  | short =>
    refine ⟨List.append_ne_nil_of_right_ne_nil _ (List.cons_ne_nil _ _), ?_⟩
    exact List.forall_mem_append.mpr
      ⟨hnumeral _, List.forall_mem_cons.mpr ⟨by decide, hnumeral _⟩⟩
  | long =>
    dsimp only
    rw [lengthenArrows_render]
    refine ⟨List.append_ne_nil_of_right_ne_nil _ (List.cons_ne_nil _ _), ?_⟩
    exact List.forall_mem_append.mpr ⟨hnumeral _, List.forall_mem_cons.mpr
      ⟨by decide, List.forall_mem_cons.mpr ⟨by decide, hnumeral _⟩⟩⟩

theorem Writes.readEdge_eq_ok (h : e.Readable) : readEdge (write e) = .ok e := by
  obtain ⟨⟨hsource, hsource'⟩, htarget, htarget'⟩ := h
  unfold readEdge
  rw [hwrite.cutArrow_eq]
  simp only [readVertex_decimal (by omega) hsource', if_neg (not_lt.mpr hsource),
    readVertex_decimal (by omega) htarget', if_neg (not_lt.mpr htarget)]

/-- **A negative end is not taken for an arrow**: it is the reason why the edge is not
read, the source before the target. -/
theorem Writes.readEdge_eq_error (h : e.FitsWords) (hneg : e.source < 0 ∨ e.target < 0) :
    ∃ v, (v = e.source ∨ v = e.target) ∧ v < 0 ∧ readEdge (write e) = .error (.negative v) := by
  obtain ⟨⟨hsource, hsource'⟩, htarget, htarget'⟩ := h
  unfold readEdge
  rw [hwrite.cutArrow_eq]
  simp only [readVertex_decimal hsource hsource', readVertex_decimal htarget htarget']
  by_cases hfirst : e.source < 0
  · refine ⟨e.source, Or.inl rfl, hfirst, ?_⟩
    rw [if_pos hfirst]
  · have hsecond : e.target < 0 := hneg.resolve_left hfirst
    refine ⟨e.target, Or.inr rfl, hsecond, ?_⟩
    rw [if_neg hfirst, if_pos hsecond]

/-- Written edges are the pieces of every text that separates them. -/
theorem Writes.parseEdgeList_eq (htext : Separated (es.map write) text) :
    parseEdgeList text = readEdges (es.map write) := by
  unfold parseEdgeList
  rw [edgeTokens_of_separated htext (List.forall_mem_map.mpr fun e _ => hwrite.isPiece e)]

/-- **Edges are read back from every text that separates them.** -/
theorem Writes.parseEdgeList_eq_ok (h : ∀ e ∈ es, e.Readable)
    (htext : Separated (es.map write) text) : parseEdgeList text = .ok es := by
  rw [hwrite.parseEdgeList_eq htext, readEdges_eq_ok, List.forall₂_map_left_iff,
    List.forall₂_same]
  exact fun e he => TopologicalOrder.readEdge_eq_ok.mp (hwrite.readEdge_eq_ok (h e he))

end Writes

theorem parseEdgeList_of_separated (h : ∀ e ∈ es, e.Readable)
    (htext : Separated (es.map Edge.render) text) : parseEdgeList text = .ok es :=
  Writes.short.parseEdgeList_eq_ok h htext

/-- Pieces with separators behind each of them are separated, if there are separators
behind each but the last. -/
theorem separated_flatMap {α : Type} (write : α → List UInt8) {ps : List (α × List UInt8)}
    (hgaps : ∀ p ∈ ps, ∀ b ∈ p.2, isSeparator b = true) (hinner : ∀ p ∈ ps.dropLast, p.2 ≠ []) :
    Separated (ps.map fun p => write p.1) (ps.flatMap fun p => write p.1 ++ p.2) := by
  induction ps with
  | nil => exact .blank (List.forall_mem_nil _)
  | cons p ps ih =>
    obtain ⟨hgap, hgaps⟩ := List.forall_mem_cons.mp hgaps
    rw [List.map_cons, List.flatMap_cons, List.append_assoc, ← List.nil_append (write p.1 ++ _),
      ← List.append_assoc]
    cases ps with
    | nil =>
      refine .piece (List.forall_mem_nil _) (fun b hb => hgap b ?_) (.blank ?_)
      · simpa using List.mem_of_mem_head? hb
      · simpa using hgap
    | cons q ps =>
      rw [List.dropLast_cons_cons] at hinner
      obtain ⟨hne, hinner⟩ := List.forall_mem_cons.mp hinner
      obtain ⟨c, cs, hcs⟩ := List.exists_cons_of_ne_nil hne
      refine .piece (List.forall_mem_nil _) (fun b hb => ?_) ((ih hgaps hinner).append_left hgap)
      rw [hcs] at hb hgap
      obtain rfl : c = b := Option.some.inj hb
      exact hgap c List.mem_cons_self

/-- **Reading undoes writing, except for negative ends.** Edges with ends of one word
each are written one after the other, each with the short arrow or each with the long
one, with any separators in front, any behind and at least one between two edges. If no
end is negative, the text is read as the list of these edges. Otherwise it is refused, and
what is reported is the first edge with a negative end and such an end. -/
theorem parseEdgeList_undoes_render {write : Edge → List UInt8} (lead : List UInt8)
    (ps : List (Edge × List UInt8)) (hwrite : Writes write) (hfits : ∀ p ∈ ps, p.1.FitsWords)
    (hlead : ∀ b ∈ lead, isSeparator b = true)
    (hgaps : ∀ p ∈ ps, ∀ b ∈ p.2, isSeparator b = true)
    (hinner : ∀ p ∈ ps.dropLast, p.2 ≠ []) :
    let es := ps.map Prod.fst
    let text := lead ++ ps.flatMap fun p => write p.1 ++ p.2
    ((∀ e ∈ es, 0 ≤ e.source ∧ 0 ≤ e.target) → parseEdgeList text = .ok es) ∧
      ((∃ e ∈ es, e.source < 0 ∨ e.target < 0) →
        ∃ before e after v, es = before ++ e :: after ∧
          (∀ d ∈ before, 0 ≤ d.source ∧ 0 ≤ d.target) ∧
          (v = e.source ∨ v = e.target) ∧ v < 0 ∧
          parseEdgeList text = .error { token := write e, cause := .negative v }) := by
  intro es text
  have hwords : ∀ e ∈ es, e.FitsWords := List.forall_mem_map.mpr hfits
  have htext : Separated (es.map write) text := by
    have hseparated := (separated_flatMap write hgaps hinner).append_left hlead
    rw [List.map_map]
    exact hseparated
  have hreadable : ∀ e ∈ es, 0 ≤ e.source ∧ 0 ≤ e.target → e.Readable := fun e he h =>
    ⟨⟨h.1, (hwords e he).1.2⟩, h.2, (hwords e he).2.2⟩
  refine ⟨fun hnonneg => ?_, fun hnegative => ?_⟩
  · exact hwrite.parseEdgeList_eq_ok (fun e he => hreadable e he (hnonneg e he)) htext
  · -- the first edge with a negative end is the first that is not read
    obtain ⟨e, hfirst⟩ : ∃ e, es.find? (fun e => e.source < 0 ∨ e.target < 0) = some e := by
      rw [← Option.isSome_iff_exists, List.find?_isSome]
      simpa using hnegative
    obtain ⟨hneg, before, after, hsplit, hbefore⟩ := List.find?_eq_some_iff_append.mp hfirst
    have hnonneg : ∀ d ∈ before, 0 ≤ d.source ∧ 0 ≤ d.target := fun d hd => by
      simpa using hbefore d hd
    have hmem : ∀ {d}, d ∈ before ∨ d = e → d ∈ es := fun hd => by
      rw [hsplit]
      simpa [or_assoc] using Or.inl hd
    obtain ⟨v, hv, hvneg, hread⟩ :=
      hwrite.readEdge_eq_error (hwords e (hmem (Or.inr rfl))) (by simpa using hneg)
    refine ⟨before, e, after, v, hsplit, hnonneg, hv, hvneg, ?_⟩
    rw [hwrite.parseEdgeList_eq htext]
    refine readEdges_eq_error.mpr ⟨before.map write, after.map write, ?_, ?_, hread⟩
    · rw [hsplit, List.map_append, List.map_cons]
    · refine List.forall_mem_map.mpr fun d hd => ⟨d, ?_⟩
      exact readEdge_eq_ok.mp
        (hwrite.readEdge_eq_ok (hreadable d (hmem (Or.inl hd)) (hnonneg d hd)))

/-- The largest vertex there is, written with long arrows; and the least integer, written
with short ones behind an edge whose target is negative. -/
theorem parseEdgeList_undoes_render_samples :
    let large : List (Edge × List UInt8) := [(⟨7, 2 ^ 63 - 1⟩, asciiBytes ",; "), (⟨0, 0⟩, [])]
    let negative : List (Edge × List UInt8) :=
      [(⟨1, 2⟩, asciiBytes ";"), (⟨3, -1⟩, asciiBytes ","), (⟨-2 ^ 63, 2⟩, asciiBytes "\n")]
    parseEdgeList (asciiBytes "\t7->9223372036854775807,; 0->0") = .ok (large.map Prod.fst) ∧
      ∃ (before : List Edge) (e : Edge) (after : List Edge) (v : Int),
        negative.map Prod.fst = before ++ e :: after ∧
        (∀ d ∈ before, 0 ≤ d.source ∧ 0 ≤ d.target) ∧
        (v = e.source ∨ v = e.target) ∧ v < 0 ∧
        parseEdgeList (asciiBytes "1>2;3>-1,-9223372036854775808>2\n") =
          .error { token := e.render, cause := .negative v } := by
  intro large negative
  constructor
  · have htext : asciiBytes "\t7->9223372036854775807,; 0->0" =
        asciiBytes "\t" ++ large.flatMap fun p => lengthenArrows p.1.render ++ p.2 := by
      decide +kernel
    rw [htext]
    refine (parseEdgeList_undoes_render _ large Writes.long ?_ ?_ ?_ ?_).1 ?_
    · simp [large, Edge.FitsWords]
    all_goals decide +kernel
  · have htext : asciiBytes "1>2;3>-1,-9223372036854775808>2\n" =
        [] ++ negative.flatMap fun p => p.1.render ++ p.2 := by
      decide +kernel
    rw [htext]
    refine (parseEdgeList_undoes_render _ negative Writes.short ?_ ?_ ?_ ?_).2 ?_
    · simp [negative, Edge.FitsWords]
    all_goals decide +kernel

end TopologicalOrder
