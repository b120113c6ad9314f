import Mathlib
import TopologicalOrder.Proofs.Adjacencies
import TopologicalOrder.Proofs.SufficientOrder

/-!
# Graphs from documents

A document that does not say how many vertices there are leaves that to its edges. What it
mentions, as a key or as a successor, determines the order, and not the way in which the
entries are told (`Adjacency.inferOrder_eq_of_perm`). As every number that is mentioned is
below the inferred order, only a negative one can be out of range
(`Document.exists_negative_of_build`), and the order is refused exactly if some number is no
vertex of any graph (`Document.build_eq_orderTooLarge`).

Conversely a graph can be told as a document, and that document builds the graph
(`Graph.WellFormed.build_ofGraph`).
-/

namespace TopologicalOrder

variable {n k v : Int} {looped : Bool} {ps : List Permission} {x : Int × List Int}
  {err : GraphError} {a b : Adjacency}

/-! ## Adjacencies and orders -/

/-- An entry is not refused for the order. -/
theorem EntryError.not_aboutOrder {n : Nat} (h : EntryError n looped x err) : ¬ err.AboutOrder := by
  cases h with
  | key => exact id
  | successor => exact id

/-- **An entry with something out of range mentions it**: the key, or a successor. -/
theorem EntryError.exists_not_isVertex {n : Nat} (h : EntryError n looped x err)
    (hout : err.IsOutOfRange) : ∃ v, (v = x.1 ∨ v ∈ x.2) ∧ ¬ IsVertex n v := by
  cases h with
  | key hkey => exact ⟨_, Or.inl rfl, hkey⟩
  | @successor k us i fault hkey hfirst =>
    obtain ⟨e, he, hrefused⟩ := hfirst.refused
    obtain ⟨v, hv, rfl⟩ := List.mem_map.mp (List.mem_of_getElem? he)
    cases hrefused with
    | source hsource => exact absurd hkey hsource
    | target _ htarget => exact ⟨v, Or.inr hv, htarget⟩
    | loop => exact hout.elim
    | duplicate => exact hout.elim

namespace Adjacency

/-- **The order in which the entries are told does not matter** for the inferred order. -/
theorem inferOrder_eq_of_perm (h : b.entries.Perm a.entries) : b.inferOrder = a.inferOrder := by
  rw [inferOrder_eq, inferOrder_eq]
  exact orderForAll_eq_of_perm (h.flatMap_right _)

end Adjacency

namespace Graph

variable {g : Graph}

/-- **An adjacency is refused for its order exactly if the order is refused**, whatever its
entries. -/
theorem ofAdjacency_eq_error_iff (h : err.AboutOrder) :
    ofAdjacency n a ps = .error err ↔ ofOrder n ps = .error err := by
  cases hstart : ofOrder n ps with
  | error e =>
    unfold ofAdjacency
    rw [hstart]
  | ok g =>
    refine iff_of_false (fun herror => ?_) (fun hnone => nomatch hnone)
    rcases ofAdjacency_cases (ofOrder_eq_ok.mp hstart).1 a ps with
      ⟨-, r, hok⟩ | ⟨x, -, e, hrefused, hentry, -⟩
    · exact nomatch hok.symm.trans herror
    · obtain rfl := Except.error.inj (hrefused.symm.trans herror)
      exact hentry.not_aboutOrder h

theorem ofAdjacency_eq_orderTooLarge :
    ofAdjacency n a ps = .error (.orderTooLarge k) ↔ maxOrder < n ∧ n = k := by
  rw [ofAdjacency_eq_error_iff (show GraphError.AboutOrder (.orderTooLarge k) from trivial),
    ofOrder_eq_orderTooLarge]

/-- An order that is refused is refused before anything can be out of range. -/
theorem not_isOutOfRange_of_ofOrder (h : ofOrder n ps = .error err) : ¬ err.IsOutOfRange := by
  unfold ofOrder at h
  split at h
  · obtain rfl := Except.error.inj h
    exact id
  · split at h
    · obtain rfl := Except.error.inj h
      exact id
    · cases h

/-- **With an order above everything that is mentioned, only a negative number is out of
range.** -/
theorem exists_negative_of_ofAdjacency (hn : ∀ v ∈ a.mentions, v < n)
    (h : ofAdjacency n a ps = .error err) (hout : err.IsOutOfRange) :
    ∃ v ∈ a.mentions, v < 0 := by
  cases hstart : ofOrder n ps with
  | error e =>
    unfold ofAdjacency at h
    rw [hstart] at h
    exact absurd hout (not_isOutOfRange_of_ofOrder (hstart.trans h))
  | ok g₀ =>
    rcases ofAdjacency_cases (ofOrder_eq_ok.mp hstart).1 a ps with
      ⟨-, r, hok⟩ | ⟨x, hx, e, hrefused, hentry, -⟩
    · exact nomatch hok.symm.trans h
    · obtain rfl := Except.error.inj (hrefused.symm.trans h)
      obtain ⟨v, hv, hnot⟩ := hentry.exists_not_isVertex hout
      have hmem : v ∈ a.mentions := Adjacency.mem_mentions.mpr ⟨x, hx, hv⟩
      rw [isVertex_toNat_iff (hn v hmem)] at hnot
      exact ⟨v, hmem, not_le.mp hnot⟩

theorem looped_of_ofAdjacency (h : ofAdjacency n a ps = .ok g) : g.looped = allowsLoops ps := by
  obtain ⟨g₀, hstart, -, hadds⟩ := ofAdjacency_eq_ok.mp h
  rw [hadds.order_eq.2, (order_of_ofOrder hstart).2]

end Graph

/-! ## Documents -/

namespace Document

variable {d : Document} {g : Graph}

/-- **The document that tells a graph**: how many vertices it has, whether it may have loops,
and its adjacency. -/
def ofGraph (g : Graph) : Document :=
  { vertices := some g.order, loops := g.looped, edges := g.adjacency }

/-- **Loops are allowed by the document or by the caller.** -/
theorem allowsLoops_permissions (d : Document) (ps : List Permission) :
    allowsLoops (d.permissions ps) = (d.loops || allowsLoops ps) := by
  unfold permissions allowsLoops
  cases d.loops with
  | false => rfl
  | true => exact List.contains_cons

theorem order_of_vertices_eq_none (h : d.vertices = none) : d.order = d.edges.inferOrder := by
  unfold order
  rw [h]

/-- **The inferred order is refused exactly if something that is mentioned is no vertex of the
largest graph there is.** -/
theorem build_eq_orderTooLarge (h : d.vertices = none) :
    (∃ k, d.build ps = .error (.orderTooLarge k)) ↔ ∃ v ∈ d.edges.mentions, maxOrder ≤ v := by
  unfold build
  simp only [Graph.ofAdjacency_eq_orderTooLarge, exists_and_left, exists_eq', and_true]
  rw [order_of_vertices_eq_none h, Adjacency.inferOrder_eq, maxOrder_lt_orderForAll]

/-- **With the inferred order only a negative number is out of range.** -/
theorem exists_negative_of_build (h : d.vertices = none) (herror : d.build ps = .error err)
    (hout : err.IsOutOfRange) : ∃ v ∈ d.edges.mentions, v < 0 := by
  by_cases hlarge : ∃ v ∈ d.edges.mentions, maxOrder ≤ v
  · -- then the order is refused, and nothing is said to be out of range
    obtain ⟨k, hk⟩ := (build_eq_orderTooLarge h).mpr hlarge
    obtain rfl := Except.error.inj (hk.symm.trans herror)
    exact hout.elim
  · refine Graph.exists_negative_of_ofAdjacency (fun v hv => ?_) herror hout
    rw [order_of_vertices_eq_none h, Adjacency.inferOrder_eq]
    exact lt_orderForAll (not_lt.mp (mt maxOrder_lt_orderForAll.mp hlarge)) hv

end Document

namespace Graph

variable {g : Graph}

/-- **A graph is built from the document that tells it**, unless loops are allowed beyond it. -/
theorem WellFormed.build_ofGraph (h : g.WellFormed)
    (hloops : allowsLoops ps = true → g.looped = true) :
    (Document.ofGraph g).build ps = .ok g := by
  refine h.ofAdjacency_adjacency ?_
  rw [Document.allowsLoops_permissions]
  show (g.looped || allowsLoops ps) = g.looped
  cases hps : allowsLoops ps with
  | false => exact Bool.or_false _
  | true => rw [hloops hps, Bool.or_true]

/-- What is loaded is what the document builds. -/
theorem load_of_parse {s : List UInt8} {d : Document} (h : Document.parse? s = some d) :
    load s ps = (d.build ps).mapError .badGraph := by
  unfold load
  rw [h]
  dsimp only
  cases d.build ps <;> rfl

end Graph

/-! ## The result -/

/-- **What becomes of a document.** Take any document that does not say how many vertices
there are. The order that it needs, and what is built, are the same however its entries are
told; that order is between zero and the number above the largest order there is, and a
machine computes it without overflow. The build is refused for the order exactly if a key or
a successor is no vertex of the largest graph there is, and otherwise something is out of
range only if a key or a successor is negative. To say the inferred order changes nothing.

The graph of any document may have loops if the document or the caller says so; loading is
reading the document and building its graph. A graph, however it was built, is built from
the document that tells it. -/
theorem Document.build_of_every_document (ps : List Permission) :
    (∀ d : Document, d.vertices = none →
      (∀ b : Adjacency, b.entries.Perm d.edges.entries →
        ({ d with edges := b } : Document).order = d.order ∧
          ({ d with edges := b } : Document).build ps = d.build ps) ∧
      (0 ≤ d.order ∧ d.order ≤ maxOrder + 1) ∧
      Word.ComputesOrder d.edges.mentions d.order ∧
      ((∃ k, d.build ps = .error (.orderTooLarge k)) ↔
        ∃ v ∈ d.edges.mentions, maxOrder ≤ v) ∧
      (∀ err, d.build ps = .error err → err.IsOutOfRange →
        ∃ v ∈ d.edges.mentions, v < 0) ∧
      ({ d with vertices := some d.order } : Document).build ps = d.build ps) ∧
    (∀ (d : Document) (g : Graph), d.build ps = .ok g →
      g.looped = (d.loops || allowsLoops ps)) ∧
    (∀ (s : List UInt8) (d : Document), Document.parse? s = some d →
      Graph.load s ps = (d.build ps).mapError .badGraph) ∧
    ∀ g : Graph, g.Built → (allowsLoops ps = true → g.looped = true) →
      (Document.ofGraph g).build ps = .ok g := by
  refine ⟨fun d hd => ⟨fun b hperm => ?_, ?_, ?_, build_eq_orderTooLarge hd,
      fun err => exists_negative_of_build hd, rfl⟩,
    fun d g h => (Graph.looped_of_ofAdjacency h).trans (allowsLoops_permissions d ps),
    fun s d h => Graph.load_of_parse h, fun g hg hloops => hg.wellFormed.build_ofGraph hloops⟩
  · have horder : ({ d with edges := b } : Document).order = d.order := by
      rw [order_of_vertices_eq_none hd, order_of_vertices_eq_none (d := { d with edges := b }) hd]
      exact Adjacency.inferOrder_eq_of_perm hperm
    refine ⟨horder, ?_⟩
    unfold build Graph.ofAdjacency
    rw [horder, Adjacency.sorted_eq_of_perm hperm]
    rfl
  · rw [order_of_vertices_eq_none hd, Adjacency.inferOrder_eq]
    exact ⟨orderForAll_nonneg _, orderForAll_le_maxOrder_add_one _⟩
  · rw [order_of_vertices_eq_none hd, Adjacency.inferOrder_eq]
    exact Word.computesOrder_orderForAll _

/-- A document at the ends of what a word can hold; one with a negative successor, told in two
ways; one that is read from a text; and a graph with loops, told as a document. -/
theorem Document.build_of_every_document_samples :
    let extreme : Document :=
      { edges := ⟨[(1, [6]), (0, [2 ^ 63 - 1]), (-2 ^ 63, [])], by decide⟩ }
    let words : List Int64 := [1, 6, 0, Int64.maxValue, Int64.minValue]
    let negative : Document := { edges := ⟨[(1, [6]), (0, [-1])], by decide⟩ }
    let turned : Adjacency := ⟨[(0, [-1]), (1, [6])], by decide⟩
    let text := Text.bytes "edges: {1: [6]}"
    let g : Graph := { order := 3, looped := true, lists := #[[2, 0], [], [1]], edgeCount := 3 }
    (words.map Int64.toInt = extreme.edges.mentions ∧
        (Word.orderForAll words).toInt = extreme.order ∧
        ∃ k, extreme.build [.loops] = .error (.orderTooLarge k)) ∧
      (negative.build [] = .error (.badSuccessor (.outOfRange .target (-1) 7)) ∧
        ({ negative with edges := turned } : Document).build [] = negative.build [] ∧
        ∃ v ∈ negative.edges.mentions, v < 0) ∧
      (∃ d, Document.parse? text = some d ∧
        Graph.load text [] = (d.build []).mapError .badGraph) ∧
      (g.Built ∧ (Document.ofGraph g).build [.loops] = .ok g ∧ g.looped = true) := by
  intro extreme words negative turned text g
  obtain ⟨hinferred, -, hload, -⟩ := build_of_every_document []
  obtain ⟨hinferred', hlooped', -, hgraph'⟩ := build_of_every_document [.loops]
  have hwords : words.map Int64.toInt = extreme.edges.mentions := by decide
  have hrun : negative.build [] = .error (.badSuccessor (.outOfRange .target (-1) 7)) := by cbv
  have hbuilt : g.Built :=
    .ofEdges (show Graph.ofEdges 3 [⟨2, 1⟩, ⟨0, 2⟩, ⟨0, 0⟩] [.loops] = .ok g from rfl)
  have hg : (Document.ofGraph g).build [.loops] = .ok g := hgraph' g hbuilt fun _ => rfl
  refine ⟨⟨hwords, ?_, ?_⟩, ⟨hrun, ?_, ?_⟩, ?_, hbuilt, hg, hlooped' _ g hg⟩
  · exact ((hinferred' extreme rfl).2.2.1 words hwords).2
  · exact (hinferred' extreme rfl).2.2.2.1.mpr ⟨2 ^ 63 - 1, by decide, by decide⟩
  · exact ((hinferred negative rfl).1 turned (by decide)).2
  · exact (hinferred negative rfl).2.2.2.2.1 _ hrun trivial
  · have hread : (Document.parse? text).isSome = true := by decide +kernel
    obtain ⟨d, hd⟩ := Option.isSome_iff_exists.mp hread
    exact ⟨d, hd, hload text d hd⟩

end TopologicalOrder
