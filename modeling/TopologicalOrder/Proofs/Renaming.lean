import Mathlib
import TopologicalOrder.Proofs.KeyedSort
import TopologicalOrder.Proofs.Observation

/-!
# Keys under other names

A keyed graph asks of two keys whether they are equal, and nothing else of any key. So its
keys may be exchanged for others, even of another type, as long as the new ones are equal
just where the old ones are (`NamesAlike`): then nothing but the names changes.

This is a statement about two runs. Two graphs correspond if they hold corresponding keys in
the same order and the same lists of numbers (`KeyedGraph.Corresponds`). A call with
corresponding keys is answered alike by both, refused calls included, and leaves them in
correspondence (`KeyedGraph.Corresponds.addVertex`, `KeyedGraph.Corresponds.addEdge`); and
since a search sees numbers only, graphs that correspond are sorted alike
(`KeyedGraph.Corresponds.sort`). A renaming of the keys is one way to make them correspond
(`KeyedGraph.renaming_immaterial`).
-/

namespace TopologicalOrder

variable {K L σ : Type} [BEq K] [BEq L] {R : K → L → Prop} {a b : K} {x y : L}

/-- **Names of two kinds for the same keys**: related names are equal or differ alike. -/
def NamesAlike (R : K → L → Prop) : Prop :=
  ∀ ⦃a b : K⦄ ⦃x y : L⦄, R a x → R b y → (a == b) = (x == y)

omit [BEq K] [BEq L] in
theorem rel_getElem? {l : List K} {l' : List L} (h : List.Forall₂ R l l') (i : Nat) :
    Option.Rel R l[i]? l'[i]? := by
  induction h generalizing i with
  | nil => exact .none
  | cons hax _ ih =>
    cases i with
    | zero => exact .some hax
    | succ i => exact ih i

/-! ## Interners that correspond -/

namespace Interner

variable {t : Interner K} {s : Interner L}

/-- **Interners that hold the same keys under different names.** -/
structure Corresponds (R : K → L → Prop) (t : Interner K) (s : Interner L) : Prop where
  /-- The indices correspond, number for number. -/
  index : List.Forall₂ (fun p q => R p.1 q.1 ∧ p.2 = q.2) t.index s.index
  /-- The keys correspond. -/
  keys : List.Forall₂ R t.keys.toList s.keys.toList

namespace Corresponds

omit [BEq K] [BEq L] in
theorem size_eq (h : Corresponds R t s) : t.size = s.size := by
  show t.keys.size = s.keys.size
  rw [← Array.length_toList, ← Array.length_toList]
  exact h.keys.length_eq

/-- **Corresponding keys have the same number.** -/
theorem lookup_eq (h : Corresponds R t s) (hR : NamesAlike R) (hax : R a x) :
    t.lookup a = s.lookup x := by
  have hindex := h.index
  unfold lookup
  generalize t.index = index, s.index = index' at hindex
  induction hindex with
  | nil => rfl
  | cons hpq _ ih => rw [List.lookup_cons, List.lookup_cons, ih, hR hax hpq.1, hpq.2]

/-- **Interning corresponding keys** answers the same number. -/
theorem intern (h : Corresponds R t s) (hR : NamesAlike R) (hax : R a x) :
    (t.intern a).1 = (s.intern x).1 ∧ Corresponds R (t.intern a).2 (s.intern x).2 := by
  have hlookup := h.lookup_eq hR hax
  cases ha : t.lookup a with
  | some i =>
    rw [intern_of_lookup ha, intern_of_lookup (hlookup ▸ ha)]
    exact ⟨rfl, h⟩
  | none =>
    rw [intern_of_lookup_none ha, intern_of_lookup_none (hlookup ▸ ha)]
    refine ⟨h.size_eq, .cons ⟨hax, h.size_eq⟩ h.index, ?_⟩
    show List.Forall₂ R (t.keys.push a).toList (s.keys.push x).toList
    rw [Array.toList_push, Array.toList_push]
    exact List.rel_append h.keys (.cons hax .nil)

omit [BEq K] [BEq L] in
/-- A number stands for corresponding keys. -/
theorem key?_rel (h : Corresponds R t s) (w : Int) : Option.Rel R (t.key? w) (s.key? w) := by
  unfold key?
  split
  · rw [← Array.getElem?_toList, ← Array.getElem?_toList]
    exact rel_getElem? h.keys w.toNat
  · exact .none

end Corresponds

end Interner

/-! ## Graphs that correspond -/

namespace KeyedGraph

variable {g : KeyedGraph K} {h : KeyedGraph L}

/-- **Graphs that differ in the names of their keys only.** -/
structure Corresponds (R : K → L → Prop) (g : KeyedGraph K) (h : KeyedGraph L) : Prop where
  /-- The keys correspond. -/
  ids : Interner.Corresponds R g.ids h.ids
  /-- The edges are the same edges of numbers. -/
  lists : g.lists = h.lists

/-- What two sorts have in common if their keys correspond: orders that correspond, or the
same failure of the search; and the client is left in the same state. -/
inductive SortedAlike (R : K → L → Prop) :
    Except (KeyedError K) (List K) × σ → Except (KeyedError L) (List L) × σ → Prop
  /-- Both give an order. -/
  | order {l : List K} {l' : List L} {c : σ} (horder : List.Forall₂ R l l') :
      SortedAlike R (.ok l, c) (.ok l', c)
  /-- Both fail. -/
  | failure (e : SortError) (c : σ) : SortedAlike R (.error (.sort e), c) (.error (.sort e), c)

omit [BEq K] [BEq L] in
theorem SortedAlike.client_eq {r : Except (KeyedError K) (List K) × σ}
    {r' : Except (KeyedError L) (List L) × σ} (h : SortedAlike R r r') : r'.2 = r.2 := by
  cases h <;> rfl

namespace Corresponds

omit [BEq K] [BEq L] in
theorem empty : Corresponds R ({} : KeyedGraph K) ({} : KeyedGraph L) where
  ids := ⟨.nil, .nil⟩
  lists := rfl

omit [BEq K] [BEq L] in
theorem successors_eq (hgh : Corresponds R g h) : g.successors = h.successors := by
  unfold successors
  rw [hgh.lists]

/-- **Making corresponding keys vertices** answers the same number. -/
theorem addVertex (hgh : Corresponds R g h) (hR : NamesAlike R) (hax : R a x) :
    (g.addVertex a).1 = (h.addVertex x).1 ∧
      Corresponds R (g.addVertex a).2 (h.addVertex x).2 := by
  obtain ⟨hnumber, hids⟩ := hgh.ids.intern hR hax
  refine ⟨hnumber, hids, ?_⟩
  show (if (g.ids.intern a).1 = g.lists.size then g.lists.push [] else g.lists) =
    if (h.ids.intern x).1 = h.lists.size then h.lists.push [] else h.lists
  rw [hnumber, hgh.lists]

/-- **Calls for corresponding edges** are both accepted or both refused. -/
theorem addEdge (hgh : Corresponds R g h) (hR : NamesAlike R) (hax : R a x) (hby : R b y) :
    Corresponds R (g.addEdge a b).2 (h.addEdge x y).2 ∧
      ((g.addEdge a b).1 = .ok () ∧ (h.addEdge x y).1 = .ok () ∨
        (g.addEdge a b).1 = .error (.duplicateEdge a b) ∧
          (h.addEdge x y).1 = .error (.duplicateEdge x y)) := by
  obtain ⟨hu, hq⟩ := hgh.addVertex hR hax
  obtain ⟨hv, hr⟩ := hq.addVertex hR hby
  rw [addEdge_eq, addEdge_eq, ← hu, ← hv, ← hr.successors_eq]
  by_cases hmem : (((g.addVertex a).2.addVertex b).1 : Int) ∈
      ((g.addVertex a).2.addVertex b).2.successors (g.addVertex a).1
  · rw [if_pos hmem, if_pos hmem]
    exact ⟨hr, Or.inr ⟨rfl, rfl⟩⟩
  · rw [if_neg hmem, if_neg hmem]
    refine ⟨⟨hr.ids, ?_⟩, Or.inl ⟨rfl, rfl⟩⟩
    unfold withEdge
    rw [hr.lists, hr.successors_eq]

variable [Inhabited K] [Inhabited L]

omit [BEq K] [BEq L] in
/-- Numbers in use are handed out as corresponding keys. -/
theorem rel_keysOf (hgh : Corresponds R g h) {ws : List Int} (hws : ∀ w ∈ ws, IsVertex g.order w) :
    List.Forall₂ R (g.keysOf ws) (h.keysOf ws) := by
  unfold keysOf
  rw [List.forall₂_map_left_iff, List.forall₂_map_right_iff, List.forall₂_same]
  intro w hw
  obtain ⟨k, hk⟩ := exists_key (hws w hw)
  have hkey := hgh.ids.key?_rel w
  rw [hk] at hkey ⊢
  generalize h.ids.key? w = key at hkey ⊢
  cases hkey with
  | some hname => exact hname

omit [BEq K] [BEq L] in
/-- **Graphs that correspond are sorted alike**, for every client. -/
theorem sort (hgh : Corresponds R g h) (o : Options σ) (c : σ) :
    SortedAlike R (g.sort o c) (h.sort o c) := by
  have horder : h.order = g.order := hgh.ids.size_eq.symm
  rw [sort_eq, sort_eq, ← hgh.successors_eq, horder]
  cases hs : topologicalSort (some g.successors) g.order o c with
  | mk answer c' =>
    cases answer with
    | error e => exact .failure e c'
    | ok order =>
      -- an order lists numbers in use only
      obtain ⟨xs, hlist, rfl⟩ := finishOrder_of_topologicalSort (congrArg Prod.fst hs)
      exact .order (hgh.rel_keysOf fun w hw =>
        mem_vertices.mp (hlist.perm_reverse.mem_iff.mp hw))

end Corresponds

/-! ## What a client hears -/

/-- What a client hears of a call. -/
inductive Answer (K : Type)
  /-- The key has this number. -/
  | number (i : Nat)
  /-- The edge is accepted. -/
  | accepted
  /-- The edge is refused. -/
  | refused (error : KeyedError K)

/-- The answer to a call. -/
def answer (g : KeyedGraph K) : Call K → Answer K
  | .vertex k => .number (g.addVertex k).1
  | .edge a b =>
    match (g.addEdge a b).1 with
    | .ok () => .accepted
    | .error e => .refused e

/-- **The answers to a sequence of calls.** -/
def answers (g : KeyedGraph K) : List (Call K) → List (Answer K)
  | [] => []
  | c :: cs => g.answer c :: (g.call c).2.answers cs

end KeyedGraph

/-! ## Renaming -/

/-- The same error with other names. -/
def KeyedError.map (f : K → L) : KeyedError K → KeyedError L
  | .duplicateEdge a b => .duplicateEdge (f a) (f b)
  | .unknownKey k => .unknownKey (f k)
  | .sort e => .sort e

namespace KeyedGraph

variable {f : K → L}

/-- The same call with other names. -/
def Call.map (f : K → L) : Call K → Call L
  | .vertex k => .vertex (f k)
  | .edge a b => .edge (f a) (f b)

/-- The same answer with other names. -/
def Answer.map (f : K → L) : Answer K → Answer L
  | .number i => .number i
  | .accepted => .accepted
  | .refused e => .refused (e.map f)

/-- A renaming that keeps different keys apart names them alike. -/
theorem namesAlike_of_injective [LawfulBEq K] [LawfulBEq L] (hf : Function.Injective f) :
    NamesAlike fun a x => f a = x := by
  rintro a b _ _ rfl rfl
  rw [Bool.eq_iff_iff, beq_iff_eq, beq_iff_eq]
  exact hf.eq_iff.symm

section Renamed

variable (hf : NamesAlike fun a x => f a = x) {g : KeyedGraph K} {h : KeyedGraph L}
  (hgh : Corresponds (fun a x => f a = x) g h)

include hf hgh

/-- **A renamed call is answered alike**, and keeps the graphs in correspondence. -/
theorem Corresponds.call (c : Call K) :
    h.answer (c.map f) = (g.answer c).map f ∧
      Corresponds (fun a x => f a = x) (g.call c).2 (h.call (c.map f)).2 := by
  cases c with
  | vertex k =>
    obtain ⟨hnumber, hnext⟩ := hgh.addVertex hf (rfl : f k = f k)
    exact ⟨congrArg Answer.number hnumber.symm, hnext⟩
  | edge a b =>
    obtain ⟨hnext, hanswer⟩ := hgh.addEdge hf (rfl : f a = f a) (rfl : f b = f b)
    refine ⟨?_, hnext⟩
    unfold answer Call.map
    dsimp only
    rcases hanswer with ⟨hg, hh⟩ | ⟨hg, hh⟩
    · rw [hg, hh]
      rfl
    · rw [hg, hh]
      rfl

/-- **So is a renamed sequence of calls.** -/
theorem Corresponds.replay (cs : List (Call K)) :
    h.answers (cs.map (Call.map f)) = (g.answers cs).map (Answer.map f) ∧
      Corresponds (fun a x => f a = x) (g.replay cs) (h.replay (cs.map (Call.map f))) := by
  induction cs generalizing g h with
  | nil => exact ⟨rfl, hgh⟩
  | cons c cs ih =>
    obtain ⟨hanswer, hnext⟩ := hgh.call hf c
    obtain ⟨hanswers, hend⟩ := ih hnext
    refine ⟨?_, hend⟩
    show h.answer (c.map f) :: (h.call (c.map f)).2.answers (cs.map (Call.map f)) =
      (g.answer c).map f :: ((g.call c).2.answers cs).map (Answer.map f)
    rw [hanswer, hanswers]

end Renamed

omit [BEq K] [BEq L] in
theorem forall₂_renamed {l : List K} {l' : List L} :
    List.Forall₂ (fun a x => f a = x) l l' ↔ l' = l.map f := by
  rw [← List.forall₂_map_left_iff (R := Eq), List.forall₂_eq_eq_eq, eq_comm]

omit [BEq K] [BEq L] in
theorem sortedAlike_renamed {r : Except (KeyedError K) (List K) × σ}
    {r' : Except (KeyedError L) (List L) × σ} (h : SortedAlike (fun a x => f a = x) r r') :
    (∃ order d, r = (.ok order, d) ∧ r' = (.ok (order.map f), d)) ∨
      ∃ e d, r = (.error (.sort e), d) ∧ r' = (.error (.sort e), d) := by
  cases h with
  | @order l l' c horder =>
    obtain rfl := forall₂_renamed.mp horder
    exact Or.inl ⟨l, c, rfl, rfl⟩
  | failure e c => exact Or.inr ⟨e, c, rfl, rfl⟩

/-- **Renaming the keys of a graph changes nothing but the names.** Take any sequence of calls
on a graph without vertices, and make the same calls under other names, where different keys
keep different names. Every call is answered alike: the same number for a vertex, and an edge
is accepted in both graphs or refused in both. In the end each key has the number that its new
name has, each number stands for the key and for its new name, and the lists are the same. For
every client the sorts give the same order under the two names, or fail for the same reason;
either way the client is left in the same state, and its hooks are called alike. -/
theorem renaming_immaterial [LawfulBEq K] [LawfulBEq L] [Inhabited K] [Inhabited L]
    (hf : Function.Injective f) (cs : List (Call K)) :
    let g := replay ({} : KeyedGraph K) cs
    let h := replay ({} : KeyedGraph L) (cs.map (Call.map f))
    answers ({} : KeyedGraph L) (cs.map (Call.map f)) =
        (answers ({} : KeyedGraph K) cs).map (Answer.map f) ∧
      (h.keys = g.keys.map f ∧ (∀ k, h.ids.lookup (f k) = g.ids.lookup k) ∧
        ∀ w, h.ids.key? w = (g.ids.key? w).map f) ∧
      h.lists = g.lists ∧
      ∀ (o : Options σ) (c : σ),
        ((∃ order d, g.sort o c = (.ok order, d) ∧ h.sort o c = (.ok (order.map f), d)) ∨
          ∃ e d, g.sort o c = (.error (.sort e), d) ∧ h.sort o c = (.error (.sort e), d)) ∧
        (h.sort o.recorded (c, [])).2 = (g.sort o.recorded (c, [])).2 := by
  intro g h
  have hnames : NamesAlike fun a x => f a = x := namesAlike_of_injective hf
  obtain ⟨hanswers, hgh⟩ : _ ∧ Corresponds (fun a x => f a = x) g h :=
    Corresponds.empty.replay hnames cs
  refine ⟨hanswers, ⟨forall₂_renamed.mp hgh.ids.keys, fun k => ?_, fun w => ?_⟩, hgh.lists.symm,
    fun o c => ⟨sortedAlike_renamed (hgh.sort o c), (hgh.sort o.recorded (c, [])).client_eq⟩⟩
  · exact (hgh.ids.lookup_eq hnames rfl).symm
  · have hkey := hgh.ids.key?_rel w
    generalize g.ids.key? w = key, h.ids.key? w = key' at hkey
    cases hkey with
    | none => rfl
    | some hname => rw [Option.map_some, hname]

/-- Letters are renamed to their codes: the second copy of an edge is refused under the new
names too, and a sort that looks for cycles reports the same edge. -/
theorem renaming_immaterial_sample :
    let f : Char → Nat := Char.toNat
    let cs : List (Call Char) := [.vertex 'c', .edge 'a' 'b', .edge 'a' 'b', .edge 'b' 'a']
    let h := replay ({} : KeyedGraph Nat) (cs.map (Call.map f))
    Function.Injective f ∧
      answers ({} : KeyedGraph Nat) (cs.map (Call.map f)) =
        [.number 0, .accepted, .refused (.duplicateEdge 97 98), .accepted] ∧
      h.keys = [99, 97, 98] ∧ h.ids.lookup 98 = some 2 ∧
      h.sort {} () = (.ok [97, 98, 99], ()) ∧
      h.sort { detectCycles := true } () = (.error (.sort (.cycle 2 1)), ()) := by
  intro f cs h
  have hf : Function.Injective f := fun a b hab => Char.toNat_inj.mp hab
  obtain ⟨hanswers, ⟨hkeys, hlookup, -⟩, -, hsort⟩ := renaming_immaterial (σ := Unit) hf cs
  have horder : (replay {} cs).sort {} () = (.ok ['a', 'b', 'c'], ()) := by cbv
  have hcycle : (replay {} cs).sort { detectCycles := true } () =
      (.error (.sort (.cycle 2 1)), ()) := by cbv
  refine ⟨hf, hanswers.trans (by cbv), hkeys.trans (by decide), (hlookup 'b').trans (by decide),
    ?_, ?_⟩
  · rcases (hsort {} ()).1 with ⟨order, d, hg, hh⟩ | ⟨e, d, hg, -⟩
    · cases horder.symm.trans hg
      exact hh
    · cases horder.symm.trans hg
  · rcases (hsort { detectCycles := true } ()).1 with ⟨order, d, hg, -⟩ | ⟨e, d, hg, hh⟩
    · cases hcycle.symm.trans hg
    · cases hcycle.symm.trans hg
      exact hh

end KeyedGraph

end TopologicalOrder
