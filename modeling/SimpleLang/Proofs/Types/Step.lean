import SimpleLang.Proofs.Types.Alike
import SimpleLang.Proofs.Types.Unify

/-!
# The steps of unification

All that unification ever does to a state is one of two things: it asks for the representative of
a node, which shortens ways and changes no type, or it makes a binding.  What can be bound is said
by `TypeStore.Binding`: an unbound variable, and as target a representative whose type does not
mention the variable.  A binding is logged as it is made.

A chain of such steps keeps a store well formed and only makes it more definite
(`Inference.refines_of_steps`).  It never leaves a store as indefinite as it was and yet changes a
type: either there are fewer unbound variables afterwards, or every node stands for what it stood
for (`Inference.fewer_or_same_of_steps`).
-/

namespace SimpleLang

namespace TypeStore

variable {s s' : TypeStore}

/-! ### Bindings -/

/-- A binding that can be made in a store. -/
structure Binding (s : TypeStore) where
  /-- The node of the variable. -/
  var : NodeId
  /-- The number of the variable. -/
  id : Nat
  /-- The node that it will be bound to. -/
  target : NodeId
  /-- The variable is not bound yet. -/
  unbound : s.node? var = some (.var id none)
  /-- The target is a node of the store. -/
  target_lt : target < s.size
  /-- The target represents itself. -/
  target_root : s.Root target
  /-- The variable does not appear in the target. -/
  apart : ¬ (s.denote target).Mentions var

/-- The store with a binding made. -/
def bind (s : TypeStore) (b : s.Binding) : TypeStore := s.set b.var (.var b.id (some b.target))

namespace Binding

variable (b : s.Binding)

/-- No variable is bound to itself. -/
theorem ne : b.var ≠ b.target := by
  intro h
  apply b.apart
  rw [← h, denote_unbound b.unbound, Ty.mentions_var]

theorem refines (hs : s.WellFormed) : s.Refines (s.bind b) where
  toExtends := extends_set b.unbound fun _ hM => ((bind_models_iff b.unbound).1 hM).1
  wellFormed := bind_wellFormed hs b.unbound b.target_lt b.apart
  size_eq := size_set _ _ _
  varCount_eq := rfl

theorem resolve_eq (hs : s.WellFormed) (k : NodeId) :
    (s.bind b).resolve k = if s.resolve k = b.var then b.target else s.resolve k :=
  bind_resolve hs b.unbound b.target_lt b.target_root b.apart k

theorem node?_var : (s.bind b).node? b.var = some (.var b.id (some b.target)) :=
  node?_set_self (lt_size_of_node? b.unbound) _

end Binding

/-- The binding of a variable to a type that it was not found in. -/
def Binding.ofNotOccurs {v t : NodeId} {id : Nat} (hs : s.WellFormed)
    (hv : s.node? v = some (.var id none)) (ht : t < s.size) (hr : s.Root t)
    (ho : ¬ s.occurs v t = true) : s.Binding where
  var := v
  id := id
  target := t
  unbound := hv
  target_lt := ht
  target_root := hr
  apart h := ho ((occurs_iff hs hv ht).2 h)

/-! ### How indefinite a store is -/

/-- The variables that are not bound. -/
def unboundVars (s : TypeStore) : Finset NodeId := {v ∈ Finset.range s.size | s.isUnbound v}

theorem mem_unboundVars {v : NodeId} :
    v ∈ s.unboundVars ↔ ∃ id, s.node? v = some (.var id none) := by
  rw [unboundVars, Finset.mem_filter, Finset.mem_range, isUnbound_iff]
  refine and_iff_right_of_imp ?_
  rintro ⟨id, hv⟩
  exact lt_size_of_node? hv

theorem Refines.unboundVars_subset (h : s.Refines s') : s'.unboundVars ⊆ s.unboundVars := by
  intro v hv
  obtain ⟨id, hv⟩ := mem_unboundVars.1 hv
  exact mem_unboundVars.2 ⟨id, h.unbound hv⟩

theorem Binding.unboundVars_ssubset (hs : s.WellFormed) (b : s.Binding) :
    (s.bind b).unboundVars ⊂ s.unboundVars := by
  refine (Finset.ssubset_iff_of_subset (b.refines hs).unboundVars_subset).2
    ⟨b.var, mem_unboundVars.2 ⟨b.id, b.unbound⟩, fun h => ?_⟩
  obtain ⟨id, h⟩ := mem_unboundVars.1 h
  rw [b.node?_var] at h
  cases h

end TypeStore

namespace Inference

open TypeStore

variable {i j : Inference}

/-- The state after asking for the representative of a node. -/
def find (i : Inference) (a : NodeId) : Inference := ⟨(i.types.find a).2, i.log⟩

/-- The state after making a binding, which is logged. -/
def bind (i : Inference) (b : i.types.Binding) : Inference :=
  ⟨i.types.bind b,
    (i.log.push (.unified (i.types.display b.var) (i.types.display b.target))).push
      (.bound b.id b.target)⟩

/-- One thing that unification does to a state. -/
inductive Step : Inference → Inference → Prop
  /-- The representative of a node is asked for. -/
  | find {i : Inference} (a : NodeId) : a < i.types.size → Step i (i.find a)
  /-- A binding is made. -/
  | bind {i : Inference} (b : i.types.Binding) : Step i (i.bind b)

theorem Step.refines (hs : i.types.WellFormed) (h : Step i j) : i.types.Refines j.types := by
  cases h with
  | find a _ => exact (find_sameTypes hs a).toRefines
  | bind b => exact b.refines hs

/-- A step binds a variable for the first time, or it changes no type. -/
theorem Step.fewer_or_same (hs : i.types.WellFormed) (h : Step i j) :
    j.types.unboundVars.card < i.types.unboundVars.card ∨ j.types.denote = i.types.denote := by
  cases h with
  | find a _ =>
    have hsame := find_sameTypes hs a
    exact .inr (funext (hsame.alike.denote_eq hs hsame.wellFormed))
  | bind b => exact .inl (Finset.card_lt_card (b.unboundVars_ssubset hs))

theorem refines_of_steps (hs : i.types.WellFormed) (h : Relation.ReflTransGen Step i j) :
    i.types.Refines j.types := by
  induction h with
  | refl => exact .refl hs
  | tail _ hstep ih => exact ih.trans (hstep.refines ih.wellFormed)

theorem fewer_or_same_of_steps (hs : i.types.WellFormed) (h : Relation.ReflTransGen Step i j) :
    j.types.unboundVars.card < i.types.unboundVars.card ∨ j.types.denote = i.types.denote := by
  induction h with
  | refl => exact .inr rfl
  | tail hsteps hstep ih =>
    have hmid := refines_of_steps hs hsteps
    have hle := Finset.card_le_card (hstep.refines hmid.wellFormed).unboundVars_subset
    rcases ih with hlt | hsame
    · exact .inl (hle.trans_lt hlt)
    rcases hstep.fewer_or_same hmid.wellFormed with hlt | hsame'
    · exact .inl (hlt.trans_le (Finset.card_le_card hmid.unboundVars_subset))
    · exact .inr (hsame'.trans hsame)

end Inference

end SimpleLang
