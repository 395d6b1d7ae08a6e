import SimpleLang.Proofs.Types.Models

/-!
# Adding nodes

A node that is added at the end of a store and links only to nodes that are there leaves the
store well formed and adds nothing but its own condition to the models.  An unbound variable has
no condition, so the models of a store are also those of the store with one more variable.
-/

namespace SimpleLang

namespace TypeStore

variable {s : TypeStore} {n : Node} {M : NodeId → Ty}

/-- A node added at the end, and the number of variables there are then. -/
def push (s : TypeStore) (n : Node) (varCount : Nat) : TypeStore := ⟨s.nodes.push n, varCount⟩

@[simp] theorem size_push (s : TypeStore) (n : Node) (c : Nat) : (s.push n c).size = s.size + 1 :=
  Array.size_push n

theorem node?_push (s : TypeStore) (n : Node) (c : Nat) (i : NodeId) :
    (s.push n c).node? i = if i = s.size then some n else s.node? i :=
  Array.getElem?_push

theorem node?_push_self (s : TypeStore) (n : Node) (c : Nat) :
    (s.push n c).node? s.size = some n := by
  rw [node?_push, if_pos rfl]

theorem node?_push_lt {i : NodeId} (h : i < s.size) (n : Node) (c : Nat) :
    (s.push n c).node? i = s.node? i := by
  rw [node?_push, if_neg (Nat.ne_of_lt h)]

theorem models_push_iff {c : Nat} : (s.push n c).Models M ↔ s.Models M ∧ n.Holds M s.size := by
  constructor
  · intro hM
    refine ⟨fun i m hm => hM i m ?_, hM s.size n (node?_push_self s n c)⟩
    rw [node?_push_lt (lt_size_of_node? hm), hm]
  · rintro ⟨hM, hn⟩ i m hm
    rw [node?_push] at hm
    split at hm
    · rename_i hi
      cases hm
      rw [hi]
      exact hn
    · exact hM i m hm

theorem extends_push (s : TypeStore) (n : Node) (c : Nat) : s.Extends (s.push n c) := by
  refine ⟨fun i m hm => ⟨m, ?_, .same m⟩, fun M hM => (models_push_iff.1 hM).1⟩
  rw [node?_push_lt (lt_size_of_node? hm), hm]

theorem wellFormed_push {c : Nat} (hs : s.WellFormed) (hn : ∀ j ∈ n.links, j < s.size) :
    (s.push n c).WellFormed := by
  have hlink : ∀ i j, (s.push n c).Link i j →
      j < s.size ∧ ((i = s.size) ∨ (i < s.size ∧ s.Link i j)) := by
    rintro i j ⟨m, hm, hj⟩
    rw [node?_push] at hm
    split at hm
    · rename_i hi
      cases hm
      exact ⟨hn j hj, .inl hi⟩
    · exact ⟨hs.lt_of_mem_links hm hj, .inr ⟨lt_size_of_node? hm, m, hm, hj⟩⟩
  -- the new node ranks above all others
  refine .of_rank (fun i j h => ?_) (fun i => if i < s.size then s.rank i else s.size + 1) ?_
  · rw [size_push]
    exact Nat.lt_succ_of_lt (hlink i j h).1
  · intro i j h
    obtain ⟨hj, rfl | ⟨hi, h⟩⟩ := hlink i j h
    · rw [if_pos hj, if_neg (Nat.lt_irrefl _)]
      exact Nat.lt_succ_of_le (s.rank_le_size j)
    · rw [if_pos hj, if_pos hi]
      exact hs.rank_lt h

theorem wellFormed_initial : initial.WellFormed := by
  have hlink : ∀ i j, ¬ initial.Link i j := by
    rintro i j ⟨n, hn, hj⟩
    have hi : i < 2 := lt_size_of_node? hn
    obtain rfl | rfl : i = 0 ∨ i = 1 := by lia
    · cases hn
      cases hj
    · cases hn
      cases hj
  exact .of_rank (fun i j h => absurd h (hlink i j)) (fun _ => 0) fun i j h => absurd h (hlink i j)

/-! ### Variables and function types -/

theorem fresh_eq (s : TypeStore) :
    s.fresh = (s.size, s.push (.var s.varCount none) (s.varCount + 1)) := rfl

theorem function_eq (s : TypeStore) (result : NodeId) (params : List NodeId) :
    s.function result params = (s.size, s.push (.function result params) s.varCount) := rfl

theorem wellFormed_fresh (hs : s.WellFormed) : s.fresh.2.WellFormed :=
  wellFormed_push hs (by simp)

theorem wellFormed_function {result : NodeId} {params : List NodeId} (hs : s.WellFormed)
    (h : ∀ j ∈ result :: params, j < s.size) : (s.function result params).2.WellFormed :=
  wellFormed_push hs h

end TypeStore

end SimpleLang
