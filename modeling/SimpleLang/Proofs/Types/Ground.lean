import SimpleLang.Proofs.Types.Growth

/-!
# Ground models

A *valuation* gives a ground type to every node.  The valuations that a store admits are its
models by ground types, and they are the instances of the store: each comes from ground types
for the unbound variables (`TypeStore.Admits.eq_groundAt`, `TypeStore.admits_groundAt`).
-/

namespace SimpleLang

/-- Ground types for nodes. -/
abbrev Valuation := NodeId → GroundTy

namespace TypeStore

variable {s s' : TypeStore} {i j : NodeId} {M M' : Valuation}

/-- The valuation respects what the nodes are. -/
def Admits (s : TypeStore) (M : Valuation) : Prop := s.Models fun i => (M i).toTy

/-- The ground type that a node stands for when the unbound variables have the types `g`. -/
def groundAt (s : TypeStore) (g : Valuation) (i : NodeId) : GroundTy := (s.denote i).ground g

/-! ### Instances -/

theorem admits_groundAt (hs : s.WellFormed) (g : Valuation) : s.Admits (s.groundAt g) := by
  have h := models_subst hs fun v => (g v).toTy
  simp only [← Ty.toTy_ground] at h
  exact h

/-- A valuation that the store admits is its own instance. -/
theorem Admits.eq_groundAt (hs : s.WellFormed) (hM : s.Admits M) (i : NodeId) :
    M i = s.groundAt M i := by
  apply GroundTy.toTy_injective
  rw [groundAt, Ty.toTy_ground]
  exact Models.eq_subst hs hM i

/-! ### What single nodes ask for -/

theorem toTy_map (M : Valuation) (is : List NodeId) :
    is.map (fun i => (M i).toTy) = (is.map M).map GroundTy.toTy := by
  rw [List.map_map]
  rfl

theorem Admits.constant (hM : s.Admits M) {t : BaseType} (h : s.node? i = some (.constant t)) :
    M i = .base t :=
  GroundTy.toTy_injective (hM i _ h)

theorem Admits.function (hM : s.Admits M) {result : NodeId} {params : List NodeId}
    (h : s.node? i = some (.function result params)) : M i = .fn (params.map M) (M result) := by
  apply GroundTy.toTy_injective
  rw [GroundTy.toTy_fn, ← toTy_map]
  exact hM i _ h

theorem Admits.resolve (hs : s.WellFormed) (hM : s.Admits M) (i : NodeId) :
    M (s.resolve i) = M i :=
  GroundTy.toTy_injective (Models.resolve hs hM i)

theorem Admits.congr (hs : s.WellFormed) (hM : s.Admits M) (h : ∀ i < s.size, M' i = M i) :
    s.Admits M' :=
  Models.congr hs hM fun i hi => by rw [h i hi]

theorem Extends.admits (h : s.Extends s') (hM : s'.Admits M) : s.Admits M := h.models _ hM

theorem admits_fresh_iff : s.fresh.2.Admits M ↔ s.Admits M := by
  rw [fresh_eq]
  exact models_push_iff.trans (and_iff_left trivial)

theorem admits_function_iff {result : NodeId} {params : List NodeId} :
    (s.function result params).2.Admits M ↔
      s.Admits M ∧ M s.size = .fn (params.map M) (M result) := by
  rw [function_eq]
  refine models_push_iff.trans (and_congr_right fun _ => ?_)
  rw [← GroundTy.toTy_inj, GroundTy.toTy_fn, ← toTy_map]
  rfl

end TypeStore

end SimpleLang
