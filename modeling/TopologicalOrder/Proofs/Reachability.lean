import Mathlib.Logic.Relation
import TopologicalOrder.Search.Order

/-!
# Paths, closed graphs and cycles

The words in which the results of a search are stated. A graph is read over the
vertices `0 … n - 1` although its successor lists may name any number, so two
notions of edge are kept apart: `Successors.Edge` is an entry of a successor
list, whatever it names, and `Successors.EdgeWithin` is one whose two ends are
vertices. Paths are made of the former, cycles of the latter.

On a graph that is *closed* – every successor of a vertex is a vertex – the two
give the same paths from a vertex (`Successors.Reaches.within`), and an edge
whose source can be reached from its target lies on a cycle
(`Successors.Closed.not_acyclic`).

A cycle is excluded by a rank: if some number gets smaller along every edge,
nothing leads back to where it started (`Successors.acyclic_of_rank`).
-/

namespace TopologicalOrder

/-- `v` is one of the vertices `0 … n - 1`. -/
def IsVertex (n : Nat) (v : Int) : Prop := 0 ≤ v ∧ v < n

instance (n : Nat) (v : Int) : Decidable (IsVertex n v) :=
  inferInstanceAs (Decidable (_ ∧ _))

/-- The vertices are listed by `vertices`. -/
@[simp] theorem mem_vertices {n : Nat} {v : Int} : v ∈ vertices n ↔ IsVertex n v := by
  unfold vertices IsVertex
  rw [List.mem_map]
  constructor
  · rintro ⟨k, hk, rfl⟩
    have := List.mem_range.mp hk
    exact ⟨Int.natCast_nonneg k, Int.ofNat_lt.mpr this⟩
  · rintro ⟨h0, hn⟩
    refine ⟨v.toNat, List.mem_range.mpr (by omega), Int.toNat_of_nonneg h0⟩

@[simp] theorem length_vertices (n : Nat) : (vertices n).length = n := by
  simp [vertices]

/-- The vertices are listed in ascending order. -/
theorem pairwise_lt_vertices (n : Nat) : (vertices n).Pairwise (· < ·) := by
  unfold vertices
  rw [List.pairwise_map]
  exact List.pairwise_lt_range.imp fun h => Int.ofNat_lt.mpr h

/-- Two vertices are told apart by the place at which an array keeps them. -/
theorem IsVertex.toNat_inj {n : Nat} {u v : Int} (hu : IsVertex n u) (hv : IsVertex n v) :
    u.toNat = v.toNat ↔ u = v := by
  have h1 := hu.1
  have h2 := hv.1
  omega

/-- **An array that keeps one entry per vertex**: writing the entry of a vertex
changes no other. -/
theorem getD_setIfInBounds_toNat {α : Type} (xs : Array α) {u v : Int} (x d : α)
    (hv : IsVertex xs.size v) (hu : IsVertex xs.size u) :
    (xs.setIfInBounds v.toNat x).getD u.toNat d = if u = v then x else xs.getD u.toNat d := by
  have hlt : v.toNat < xs.size := by
    have h0 := hv.1
    have hn := hv.2
    omega
  rw [Array.getD_eq_getD_getElem?, Array.getElem?_setIfInBounds, Array.getD_eq_getD_getElem?]
  by_cases huv : u = v
  · subst huv
    rw [if_pos rfl, if_pos rfl, if_pos hlt]
    rfl
  · rw [if_neg huv, if_neg (fun h => huv ((hu.toNat_inj hv).mp h.symm))]

namespace Successors

/-- `u` lists `v` as a successor. -/
def Edge (g : Successors) (u v : Int) : Prop := v ∈ g u

/-- `v` can be reached from `u` by following successors, in no step at all if the
two are the same. -/
def Reaches (g : Successors) : Int → Int → Prop := Relation.ReflTransGen g.Edge

/-- **Every successor of a vertex is a vertex.** -/
def Closed (g : Successors) (n : Nat) : Prop :=
  ∀ v, IsVertex n v → ∀ u ∈ g v, IsVertex n u

/-- An edge between two vertices. -/
def EdgeWithin (g : Successors) (n : Nat) (u v : Int) : Prop :=
  IsVertex n u ∧ IsVertex n v ∧ v ∈ g u

/-- **No path between vertices comes back to its start.** A vertex that lists
itself is such a path. -/
def Acyclic (g : Successors) (n : Nat) : Prop :=
  ∀ v, ¬ Relation.TransGen (g.EdgeWithin n) v v

variable {g : Successors} {n : Nat} {u v w : Int}

theorem Reaches.refl (g : Successors) (v : Int) : g.Reaches v v := Relation.ReflTransGen.refl

theorem Reaches.of_mem (h : v ∈ g u) : g.Reaches u v := Relation.ReflTransGen.single h

theorem Reaches.trans (huv : g.Reaches u v) (hvw : g.Reaches v w) : g.Reaches u w :=
  Relation.ReflTransGen.trans huv hvw

/-- **A path from a vertex of a closed graph stays among the vertices.** -/
theorem Reaches.within (hg : g.Closed n) (hu : IsVertex n u) (h : g.Reaches u v) :
    IsVertex n v ∧ Relation.ReflTransGen (g.EdgeWithin n) u v := by
  induction h with
  | refl => exact ⟨hu, Relation.ReflTransGen.refl⟩
  | tail _ he ih =>
    obtain ⟨hb, hpath⟩ := ih
    have hc := hg _ hb _ he
    exact ⟨hc, hpath.tail ⟨hb, hc, he⟩⟩

/-- In a closed graph an edge whose source can be reached from its target lies on
a cycle. -/
theorem Closed.not_acyclic (hg : g.Closed n) (hv : IsVertex n v) (hu : u ∈ g v)
    (h : g.Reaches u v) : ¬ g.Acyclic n := by
  intro hacyclic
  have hvertex : IsVertex n u := hg v hv u hu
  have hback := (Reaches.within hg hvertex h).2
  exact hacyclic v (Relation.TransGen.head' ⟨hv, hvertex, hu⟩ hback)

/-- Where every edge joins two vertices, a cycle is a path of any edges that comes back. -/
theorem acyclic_iff (h : ∀ u v, v ∈ g u → IsVertex n u ∧ IsVertex n v) :
    g.Acyclic n ↔ ∀ v, ¬ Relation.TransGen g.Edge v v := by
  have hedges : g.EdgeWithin n = g.Edge := by
    funext u v
    exact propext ⟨fun he => he.2.2, fun he => ⟨(h u v he).1, (h u v he).2, he⟩⟩
  unfold Acyclic
  rw [hedges]

/-- **A rank that every edge lowers rules out cycles.** -/
theorem acyclic_of_rank (rank : Int → Nat)
    (h : ∀ u v, g.EdgeWithin n u v → rank v < rank u) : g.Acyclic n := by
  have hlower : ∀ u v, Relation.TransGen (g.EdgeWithin n) u v → rank v < rank u := by
    intro u v hpath
    induction hpath with
    | single he => exact h _ _ he
    | tail _ he ih => exact Nat.lt_trans (h _ _ he) ih
  exact fun v hcycle => Nat.lt_irrefl _ (hlower v v hcycle)

end Successors

end TopologicalOrder
