import SimpleLang.Proofs.Types.Ground
import SimpleLang.Proofs.Types.Reachable
import SimpleLang.Proofs.Types.Variants

/-!
# The instances of the types that are shown

The valuations that a store admits give ground types to its nodes.  The types that are shown have
ground instances of their own, by ground types for the numbers of variables.  In a valid store no
two variables have one number (`TypeStore.eq_of_varId`), so the two come to the same: the
valuations are the instances of the types that are shown (`TypeStore.Valid.exists_admits_iff`).
-/

namespace SimpleLang

namespace Ty

variable {t : Ty} {g g' : Nat → GroundTy}

theorem ground_subst (t : Ty) (σ : Nat → Ty) (g : Nat → GroundTy) :
    (t.subst σ).ground g = t.ground fun v => (σ v).ground g := by
  apply GroundTy.toTy_injective
  rw [toTy_ground, toTy_ground, subst_subst]
  simp only [toTy_ground]

/-- Only the ground types of the variables that appear matter. -/
theorem ground_congr (h : ∀ v, Mentions v t → g v = g' v) : t.ground g = t.ground g' := by
  apply GroundTy.toTy_injective
  rw [toTy_ground, toTy_ground]
  exact subst_eq_subst_iff.2 fun v hv => by rw [h v hv]

end Ty

namespace TypeStore

variable {s : TypeStore} {i v w : NodeId} {M : Valuation}

/-- Only unbound variables appear in the types of nodes. -/
theorem unbound_of_mentions (hs : s.WellFormed) (hi : i < s.size)
    (h : (s.denote i).Mentions v) : ∃ id, s.node? v = some (.var id none) := by
  induction i using hs.induction with
  | step i ih =>
    obtain ⟨n, hn⟩ := exists_node_of_lt hi
    rcases n with t | ⟨id, _ | j⟩ | ⟨result, params⟩
    · rw [denote_constant hn] at h
      exact absurd h (Ty.not_mentions_base v t)
    · rw [denote_unbound hn, Ty.mentions_var] at h
      exact ⟨id, h ▸ hn⟩
    · rw [denote_bound hs hn] at h
      exact ih j ⟨_, hn, by simp⟩ (hs.lt_of_bound hn) h
    · rw [denote_function hs hn, Ty.mentions_fn, ← List.map_cons] at h
      obtain ⟨t, ht, hv⟩ := h
      obtain ⟨j, hj, rfl⟩ := List.mem_map.1 ht
      exact ih j ⟨_, hn, hj⟩ (hs.lt_of_mem_links hn hj) hv

/-- Where no number is given twice, no two variables have one number. -/
theorem eq_of_varId (hnodup : s.varIds.Nodup) {id : Nat} {b b' : Option NodeId}
    (hv : s.node? v = some (.var id b)) (hw : s.node? w = some (.var id b')) : v = w := by
  rw [varIds, List.Nodup, List.pairwise_filterMap, List.pairwise_iff_getElem] at hnodup
  -- of two places with one number neither comes first
  have hnot : ∀ {v w : NodeId} {b b' : Option NodeId}, s.node? v = some (.var id b) →
      s.node? w = some (.var id b') → ¬ v < w := by
    intro v w b b' hv hw hlt
    obtain ⟨hv', hnv⟩ := Array.getElem?_eq_some_iff.1 hv
    obtain ⟨hw', hnw⟩ := Array.getElem?_eq_some_iff.1 hw
    refine hnodup v w (by simpa using hv') (by simpa using hw') hlt id ?_ id ?_ rfl
    · rw [Array.getElem_toList, hnv]
      rfl
    · rw [Array.getElem_toList, hnw]
      rfl
  exact Nat.le_antisymm (Nat.not_lt.1 (hnot hw hv)) (Nat.not_lt.1 (hnot hv hw))

/-- From the variables that are shown, the unbound variables can be found again. -/
theorem exists_unshown (hnodup : s.varIds.Nodup) : ∃ τ : Nat → Ty,
    ∀ v id, s.node? v = some (.var id none) → (s.shown v).subst τ = .var v := by
  classical
  refine ⟨fun id => if h : ∃ v, s.node? v = some (.var id none) then .var h.choose
    else .var id, fun v id hv => ?_⟩
  have hex : ∃ v, s.node? v = some (.var id none) := ⟨v, hv⟩
  rw [shown, hv, Ty.subst_variable, dif_pos hex, eq_of_varId hnodup hex.choose_spec hv]

namespace Valid

theorem nodup_varIds (hs : s.Valid) : s.varIds.Nodup := by
  rw [hs.varIds_eq]
  exact List.nodup_range

theorem ground_term (hs : s.Valid) (g : Nat → GroundTy) (hi : i < s.size) :
    (s.term i).ground g = s.groundAt (fun v => (s.shown v).ground g) i := by
  rw [term_eq hs.toWellFormed hi, Ty.ground_subst, groundAt]

/-- The numbers of variables can be given the ground types of their nodes. -/
theorem exists_ground_shown (hs : s.Valid) (M : Valuation) : ∃ g : Nat → GroundTy,
    ∀ v id, s.node? v = some (.var id none) → (s.shown v).ground g = M v := by
  obtain ⟨τ, hτ⟩ := exists_unshown hs.nodup_varIds
  refine ⟨fun id => (τ id).ground M, fun v id hv => ?_⟩
  rw [← Ty.ground_subst, hτ v id hv, Ty.ground]

/-- **The valuations of a store are the instances of the types that are shown.** -/
theorem exists_admits_iff (hs : s.Valid) {is : List NodeId} (his : ∀ i ∈ is, i < s.size)
    {τs : List GroundTy} :
    (∃ M, s.Admits M ∧ is.map M = τs) ↔ ∃ g, (is.map s.term).map (Ty.ground g) = τs := by
  have hwf := hs.toWellFormed
  simp only [List.map_map]
  constructor
  · rintro ⟨M, hM, rfl⟩
    obtain ⟨g, hg⟩ := hs.exists_ground_shown M
    refine ⟨g, List.map_congr_left fun i hi => ?_⟩
    rw [Function.comp_apply, hs.ground_term g (his i hi), hM.eq_groundAt hwf i]
    refine Ty.ground_congr fun v hv => ?_
    obtain ⟨id, hn⟩ := unbound_of_mentions hwf (his i hi) hv
    exact hg v id hn
  · rintro ⟨g, rfl⟩
    refine ⟨_, admits_groundAt hwf fun v => (s.shown v).ground g,
      List.map_congr_left fun i hi => ?_⟩
    rw [Function.comp_apply, hs.ground_term g (his i hi)]

end Valid

end TypeStore

end SimpleLang
