import TopologicalOrder.Graph.Basic

/-!
# Adjacency maps

An `Adjacency` is a finite map from vertices to successor lists, as a client
writes it down: nothing about it is validated but that no key occurs twice.
What is no key has no successors, so an adjacency can be searched as it is.
The entries stand in the order of their first insertion, which no operation on
the map depends on.
-/

namespace TopologicalOrder

/-- **A finite map from vertices to successor lists.** -/
structure Adjacency where
  /-- The entries of the map. -/
  entries : List (Int × List Int)
  /-- No key occurs twice. -/
  nodup : (entries.map Prod.fst).Nodup

namespace Adjacency

/-- The map without entries. -/
def empty : Adjacency := { entries := [], nodup := List.Pairwise.nil }

/-- Sets the list of a key that occurs among the entries, or else puts the new
entry at the end. -/
def insertEntry (k : Int) (us : List Int) : List (Int × List Int) → List (Int × List Int)
  | [] => [(k, us)]
  | (j, vs) :: rest => if j = k then (k, us) :: rest else (j, vs) :: insertEntry k us rest

/-- The keys after an insertion are those before it and the new one. -/
theorem mem_keys_insertEntry {k j : Int} {us : List Int} {l : List (Int × List Int)}
    (h : j ∈ (insertEntry k us l).map Prod.fst) : j = k ∨ j ∈ l.map Prod.fst := by
  induction l with
  | nil => simpa [insertEntry] using h
  | cons e rest ih =>
    obtain ⟨i, vs⟩ := e
    unfold insertEntry at h
    split at h
    · rename_i hik
      subst hik
      simp only [List.map_cons, List.mem_cons] at h ⊢
      exact h.imp_right Or.inr
    · simp only [List.map_cons, List.mem_cons] at h ⊢
      rcases h with rfl | h
      · exact Or.inr (Or.inl rfl)
      · exact (ih h).imp_right Or.inr

theorem nodup_insertEntry (k : Int) (us : List Int) {l : List (Int × List Int)}
    (h : (l.map Prod.fst).Nodup) : ((insertEntry k us l).map Prod.fst).Nodup := by
  induction l with
  | nil => simp [insertEntry]
  | cons e rest ih =>
    obtain ⟨j, vs⟩ := e
    rw [List.map_cons, List.nodup_cons] at h
    unfold insertEntry
    split
    · rename_i hjk
      subst hjk
      rw [List.map_cons, List.nodup_cons]
      exact h
    · rename_i hjk
      rw [List.map_cons, List.nodup_cons]
      refine ⟨fun hm => ?_, ih h.2⟩
      exact (mem_keys_insertEntry hm).elim hjk h.1

/-- **Sets the list of a key**, replacing the one it had. -/
def insert (a : Adjacency) (k : Int) (us : List Int) : Adjacency :=
  { entries := insertEntry k us a.entries, nodup := nodup_insertEntry k us a.nodup }

/-- The map that a list of entries leaves; a later entry replaces an earlier one
of the same key. -/
def ofList (l : List (Int × List Int)) : Adjacency :=
  l.foldl (fun a e => a.insert e.1 e.2) empty

/-- The list of a key, if it is one. -/
def get? (a : Adjacency) (k : Int) : Option (List Int) := a.entries.lookup k

/-- **The successors of a vertex**; what is no key has none. -/
def successors (a : Adjacency) : Successors := fun v => (a.get? v).getD []

/-- The entries in ascending order of their keys. -/
def sorted (a : Adjacency) : List (Int × List Int) :=
  a.entries.mergeSort fun x y => x.1 ≤ y.1

end Adjacency

/-- **The adjacency of a graph.** Vertices without successors are left out. -/
def Graph.adjacency (g : Graph) : Adjacency where
  entries := ((vertices g.order).filter fun v => !(g.successors v).isEmpty).map
    fun v => (v, g.successors v)
  nodup := by
    rw [List.map_map]
    simpa [Function.comp_def, List.nodup_iff_pairwise_ne]
      using (nodup_vertices g.order).filter _

end TopologicalOrder
