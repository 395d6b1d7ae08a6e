import SimpleLang.Types.Store
import Mathlib.Data.Finset.Card
import Mathlib.Data.Finset.Range
import Mathlib.Logic.Relation

/-!
# Well-formed stores

A node links to the nodes that its meaning rests on: the node it is bound to, or the components
of a function type.  A store is *well formed* when links stay inside of the store and never run
in a circle.

The number of nodes that a node leads to (`TypeStore.rank`) is at most the number of all nodes
and falls along every link.  So whatever follows links may count down from the number of nodes
and never runs out, and `TypeStore.resolve` really ends at a node that is not bound
(`TypeStore.root_resolve`).

## Main definitions

* `TypeStore.Link s i j` : node `i` is bound to `j`, or has `j` as result or parameter.
* `TypeStore.WellFormed s` : links stay in the store, and there is no circle of links.
* `TypeStore.Root s i` : node `i` is not a bound variable.
-/

namespace SimpleLang

namespace Node

/-- The nodes that a node's meaning rests on. -/
def links : Node → List NodeId
  | .constant _ => []
  | .var _ binding => binding.toList
  | .function result params => result :: params

@[simp] theorem links_constant (t : BaseType) : (constant t).links = [] := rfl

@[simp] theorem links_unbound (id : Nat) : (var id none).links = [] := rfl

@[simp] theorem links_bound (id : Nat) (j : NodeId) : (var id (some j)).links = [j] := rfl

@[simp] theorem links_function (result : NodeId) (params : List NodeId) :
    (function result params).links = result :: params := rfl

end Node

namespace TypeStore

variable {s : TypeStore} {i j : NodeId} {n : Node}

/-! ### Reading and writing nodes -/

theorem lt_size_of_node? (h : s.node? i = some n) : i < s.size :=
  (Array.getElem?_eq_some_iff.1 h).1

theorem node?_eq_none_iff : s.node? i = none ↔ s.size ≤ i := Array.getElem?_eq_none_iff

theorem exists_node_of_lt (h : i < s.size) : ∃ n, s.node? i = some n :=
  ⟨s.nodes[i], Array.getElem?_eq_getElem h⟩

@[simp] theorem size_set (s : TypeStore) (i : NodeId) (n : Node) : (s.set i n).size = s.size :=
  Array.size_setIfInBounds

@[simp] theorem varCount_set (s : TypeStore) (i : NodeId) (n : Node) :
    (s.set i n).varCount = s.varCount := rfl

theorem node?_set (s : TypeStore) (i j : NodeId) (n : Node) :
    (s.set i n).node? j = if i = j then if i < s.size then some n else none else s.node? j :=
  Array.getElem?_setIfInBounds

theorem node?_set_self (h : i < s.size) (n : Node) : (s.set i n).node? i = some n := by
  rw [node?_set, if_pos rfl, if_pos h]

theorem node?_set_ne (h : i ≠ j) (n : Node) : (s.set i n).node? j = s.node? j := by
  rw [node?_set, if_neg h]

theorem set_eq_self (h : s.node? i = some n) : s.set i n = s := by
  obtain ⟨hi, hn⟩ := Array.getElem?_eq_some_iff.1 h
  rw [set, Array.setIfInBounds, dif_pos hi, ← hn, Array.set_getElem_self]

/-! ### Links and circles -/

/-- Node `i` is bound to `j`, or has `j` as result or parameter. -/
def Link (s : TypeStore) (i j : NodeId) : Prop := ∃ n, s.node? i = some n ∧ j ∈ n.links

theorem Link.lt_size (h : s.Link i j) : i < s.size := by
  obtain ⟨n, hn, -⟩ := h
  exact lt_size_of_node? hn

/-- Links stay inside of the store and never run in a circle. -/
structure WellFormed (s : TypeStore) : Prop where
  /-- What a node links to is there. -/
  closed : ∀ i j, s.Link i j → j < s.size
  /-- No way along links comes back to where it began. -/
  acyclic : ∀ i, ¬ Relation.TransGen s.Link i i

/-- A numbering that falls along every link rules out circles. -/
theorem WellFormed.of_rank (closed : ∀ i j, s.Link i j → j < s.size) (rk : NodeId → Nat)
    (h : ∀ i j, s.Link i j → rk j < rk i) : s.WellFormed := by
  have key : ∀ {i j}, Relation.TransGen s.Link i j → rk j < rk i := by
    intro i j hij
    induction hij with
    | single hl => exact h _ _ hl
    | tail _ hl ih => exact Nat.lt_trans (h _ _ hl) ih
  exact ⟨closed, fun i hi => Nat.lt_irrefl _ (key hi)⟩

open Classical in
/-- The number of nodes that a node leads to, itself included. -/
noncomputable def rank (s : TypeStore) (i : NodeId) : Nat :=
  ((Finset.range s.size).filter fun j => Relation.ReflTransGen s.Link i j).card

theorem rank_le_size (s : TypeStore) (i : NodeId) : s.rank i ≤ s.size := by
  classical
  refine (Finset.card_filter_le _ _).trans ?_
  rw [Finset.card_range]

theorem rank_pos (hi : i < s.size) : 0 < s.rank i := by
  classical
  exact Finset.card_pos.2 ⟨i, Finset.mem_filter.2 ⟨Finset.mem_range.2 hi, .refl⟩⟩

/-- Along a link, the node that is left behind no longer counts, unless it is on a circle. -/
theorem rank_lt_of_link (hi : ¬ Relation.TransGen s.Link i i) (h : s.Link i j) :
    s.rank j < s.rank i := by
  classical
  apply Finset.card_lt_card
  refine (Finset.ssubset_iff_of_subset ?_).2 ⟨i, ?_, ?_⟩
  · intro k hk
    obtain ⟨hk, hjk⟩ := Finset.mem_filter.1 hk
    exact Finset.mem_filter.2 ⟨hk, .head h hjk⟩
  · exact Finset.mem_filter.2 ⟨Finset.mem_range.2 h.lt_size, .refl⟩
  · intro hji
    exact hi (.head' h (Finset.mem_filter.1 hji).2)

namespace WellFormed

theorem rank_lt (hs : s.WellFormed) (h : s.Link i j) : s.rank j < s.rank i :=
  rank_lt_of_link (hs.acyclic i) h

theorem wellFounded (hs : s.WellFormed) : WellFounded (flip s.Link) :=
  Subrelation.wf (fun h => hs.rank_lt h) (InvImage.wf s.rank Nat.lt_wfRel.wf)

/-- What holds of a node when it holds of all that the node links to, holds of every node. -/
theorem induction {P : NodeId → Prop} (hs : s.WellFormed)
    (step : ∀ i, (∀ j, s.Link i j → P j) → P i) (i : NodeId) : P i :=
  hs.wellFounded.induction i step

theorem lt_of_bound (hs : s.WellFormed) {id : Nat} (h : s.node? i = some (.var id (some j))) :
    j < s.size :=
  hs.closed i j ⟨_, h, by simp⟩

theorem rank_lt_of_bound (hs : s.WellFormed) {id : Nat}
    (h : s.node? i = some (.var id (some j))) : s.rank j < s.rank i :=
  hs.rank_lt ⟨_, h, by simp⟩

theorem lt_of_mem_links (hs : s.WellFormed) (h : s.node? i = some n) (hj : j ∈ n.links) :
    j < s.size :=
  hs.closed i j ⟨n, h, hj⟩

end WellFormed

/-! ### Representatives -/

/-- The node is not a bound variable. -/
def Root (s : TypeStore) (i : NodeId) : Prop := ∀ id j, s.node? i ≠ some (.var id (some j))

theorem exists_bound_of_not_root (h : ¬ s.Root i) :
    ∃ id j, s.node? i = some (.var id (some j)) := by
  simpa only [Root, ne_eq, not_forall, not_not] using h

theorem resolveWithin_of_root (h : s.Root i) : ∀ k, s.resolveWithin k i = i
  | 0 => rfl
  | k + 1 => by
    rw [resolveWithin]
    split
    · rename_i id j hn
      exact absurd hn (h id j)
    · rfl

theorem resolve_of_root (h : s.Root i) : s.resolve i = i := resolveWithin_of_root h _

/-- From a node that is not bound there is no way to shorten. -/
theorem compressWithin_of_root (h : s.Root i) (root : NodeId) : ∀ k, compressWithin root k i s = s
  | 0 => rfl
  | k + 1 => by
    rw [compressWithin]
    split
    · rfl
    · split
      · rename_i id j hn
        exact absurd hn (h id j)
      · rfl

theorem find_of_root (h : s.Root i) : s.find i = (i, s) := by
  rw [find, resolve_of_root h, compressWithin_of_root h]

theorem root_of_node {n : Node} (h : s.node? i = some n) (hn : ∀ id j, n ≠ .var id (some j)) :
    s.Root i :=
  fun id j hb => hn id j (Option.some.inj (h.symm.trans hb))

theorem root_of_unbound {id : Nat} (h : s.node? i = some (.var id none)) : s.Root i :=
  root_of_node h (by simp)

theorem root_of_size_le (h : s.size ≤ i) : s.Root i := by
  intro id j hn
  exact absurd (lt_size_of_node? hn) (Nat.not_lt.2 h)

/-- The way to a representative is no longer than the rank. -/
theorem resolveWithin_eq (hs : s.WellFormed) : ∀ {k m : Nat} {i : NodeId}, s.rank i ≤ k →
    s.rank i ≤ m → s.resolveWithin k i = s.resolveWithin m i := by
  intro k
  induction k with
  | zero =>
    intro m i hk _
    have hr : s.Root i := root_of_size_le (Nat.not_lt.1 fun hi => by have := rank_pos hi; omega)
    rw [resolveWithin_of_root hr, resolveWithin_of_root hr]
  | succ k ih =>
    intro m i hk hm
    by_cases hr : s.Root i
    · rw [resolveWithin_of_root hr, resolveWithin_of_root hr]
    · obtain ⟨id, j, hn⟩ := exists_bound_of_not_root hr
      have hlt := hs.rank_lt_of_bound hn
      obtain ⟨m, rfl⟩ : ∃ m', m = m' + 1 := ⟨m - 1, by omega⟩
      rw [resolveWithin, resolveWithin, hn]
      exact ih (by omega) (by omega)

theorem resolve_of_bound (hs : s.WellFormed) {id : Nat}
    (h : s.node? i = some (.var id (some j))) : s.resolve i = s.resolve j := by
  have hlt := hs.rank_lt_of_bound h
  have hle := s.rank_le_size i
  obtain ⟨k, hk⟩ : ∃ k, s.size = k + 1 := ⟨s.size - 1, by omega⟩
  have h1 : s.resolve i = s.resolveWithin k j := by
    rw [resolve, hk, resolveWithin, h]
  rw [h1, resolve]
  exact resolveWithin_eq hs (by omega) (by omega)

/-- Whatever a binding passes on and holds of nodes that are not bound, holds of every node with
its representative. -/
theorem resolve_induction {P : NodeId → NodeId → Prop} (hs : s.WellFormed)
    (root : ∀ i, s.Root i → P i i)
    (bound : ∀ i id j, s.node? i = some (.var id (some j)) → P j (s.resolve j) →
      P i (s.resolve j)) (i : NodeId) : P i (s.resolve i) := by
  induction i using hs.induction with
  | step i ih =>
    by_cases hr : s.Root i
    · rw [resolve_of_root hr]
      exact root i hr
    · obtain ⟨id, j, hn⟩ := exists_bound_of_not_root hr
      rw [resolve_of_bound hs hn]
      exact bound i id j hn (ih j ⟨_, hn, by simp⟩)

/-- Following bindings ends at a node that is not bound. -/
theorem root_resolve (hs : s.WellFormed) (i : NodeId) : s.Root (s.resolve i) :=
  resolve_induction (P := fun _ r => s.Root r) hs (fun _ h => h) (fun _ _ _ _ h => h) i

theorem resolve_lt_size (hs : s.WellFormed) (hi : i < s.size) : s.resolve i < s.size :=
  resolve_induction (P := fun i r => i < s.size → r < s.size) hs (fun _ _ h => h)
    (fun _ _ _ hn h _ => h (hs.lt_of_bound hn)) i hi

theorem rank_resolve_le (hs : s.WellFormed) (i : NodeId) : s.rank (s.resolve i) ≤ s.rank i :=
  resolve_induction (P := fun i r => s.rank r ≤ s.rank i) hs (fun _ _ => Nat.le_refl _)
    (fun _ _ _ hn h => h.trans (hs.rank_lt_of_bound hn).le) i

end TypeStore

end SimpleLang
