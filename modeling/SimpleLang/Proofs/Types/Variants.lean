import SimpleLang.Proofs.Types.Substitution
import Mathlib.Data.Set.Finite.Lattice
import Mathlib.Data.Set.Finite.List
import Mathlib.Logic.Equiv.Fintype

/-!
# Types that differ in the names of variables

Types with the same ground instances are the same but for the names of their variables
(`Ty.exists_rename_of_instances`).  From left to right: give every variable a ground type that is
not found anywhere else, a function type with a great number of parameters of its own.  Where these
stand in an instance of the other type tells what the other's variables must be replaced by, so each
type is an instance of the other (`Ty.exists_subst_of_ground`).  And replacing variables there and
back can only rename them (`Ty.exists_rename_of_subst`).
-/

namespace SimpleLang

namespace Ty

variable {t u : Ty} {σ τ : Nat → Ty} {n : Nat}

/-! ### Substitutions that agree -/

theorem subst_subst (t : Ty) : (t.subst σ).subst τ = t.subst fun v => (σ v).subst τ := by
  induction t with
  | base b => rfl
  | var v => rfl
  | fn params result ihp ihr =>
    rw [subst_fn, subst_fn, subst_fn, ihr, List.map_map]
    exact congrArg (Ty.fn · _) (List.map_congr_left ihp)

/-- Only what a substitution does to the variables that appear matters. -/
theorem subst_eq_subst_iff : t.subst σ = t.subst τ ↔ ∀ v, Mentions v t → σ v = τ v := by
  induction t with
  | base b => simp
  | var v => simp
  | fn params result ihp ihr =>
    rw [subst_fn, subst_fn, Ty.fn.injEq, ihr, List.map_inj_left]
    constructor
    · rintro ⟨hp, hr⟩ v hv
      obtain ⟨t, ht, htv⟩ := mentions_fn.1 hv
      rcases List.mem_cons.1 ht with rfl | ht
      · exact hr v htv
      · exact (ihp t ht).1 (hp t ht) v htv
    · intro h
      refine ⟨fun p hp => (ihp p hp).2 fun v hv => ?_, fun v hv => ?_⟩
      · exact h v (mentions_fn.2 ⟨p, List.mem_cons_of_mem _ hp, hv⟩)
      · exact h v (mentions_fn.2 ⟨result, List.mem_cons_self, hv⟩)

/-- A type has finitely many variables. -/
theorem finite_mentions (t : Ty) : {v | Mentions v t}.Finite := by
  induction t with
  | base b => simp
  | var v => simp
  | fn params result ihp ihr =>
    have hunion : {v | Mentions v (.fn params result)} =
        ⋃ t ∈ {t | t ∈ result :: params}, {v | Mentions v t} := by
      ext v
      simp only [Set.mem_ofPred_eq, Set.mem_iUnion, exists_prop]
      exact mentions_fn
    rw [hunion]
    refine (List.finite_toSet _).biUnion fun t ht => ?_
    rcases List.mem_cons.1 ht with rfl | ht
    · exact ihr
    · exact ihp t ht

/-! ### Instances of each other -/

/-- The type with its variables renamed. -/
def rename (ρ : Equiv.Perm Nat) (t : Ty) : Ty := t.subst fun v => .var (ρ v)

/-- Types that are instances of each other differ in the names of variables only. -/
theorem exists_rename_of_subst (hu : u = t.subst τ) (ht : t = u.subst σ) :
    ∃ ρ : Equiv.Perm Nat, u = t.rename ρ := by
  have hback : ∀ v, Mentions v t → (τ v).subst σ = .var v := by
    rw [hu, subst_subst] at ht
    nth_rewrite 1 [← subst_var t] at ht
    exact fun v hv => (subst_eq_subst_iff.1 ht v hv).symm
  -- only a variable can become a variable again
  have hvar : ∀ v : {v // Mentions v t}, ∃ w, τ v = .var w ∧ σ w = .var v := by
    rintro ⟨v, hv⟩
    have h := hback v hv
    cases hw : τ v with
    | base b => rw [hw] at h; cases h
    | var w => rw [hw] at h; exact ⟨w, rfl, h⟩
    | fn params result => rw [hw, subst_fn] at h; cases h
  choose f hτ hσ using hvar
  have hf : Function.Injective f := by
    intro v w h
    have hv := hσ v
    rw [h, hσ w] at hv
    exact Subtype.ext (Ty.var.inj hv).symm
  have hfinite : Finite {v // Mentions v t} := t.finite_mentions
  obtain ⟨ρ, hρ⟩ := Equiv.Perm.exists_extending_pair (fun v : {v // Mentions v t} => v.1) f
    Subtype.val_injective hf
  refine ⟨ρ, hu.trans (subst_eq_subst_iff.2 fun v hv => ?_)⟩
  rw [hτ ⟨v, hv⟩, hρ ⟨v, hv⟩]

/-! ### Marked variables -/

mutual

/-- More than the number of parameters of any function type in a type. -/
def width : Ty → Nat
  | .base _ => 0
  | .var _ => 0
  | .fn params result => max (params.length + 1) (max (widths params) result.width)

/-- The greatest width of some types. -/
def widths : List Ty → Nat
  | [] => 0
  | t :: ts => max t.width (widths ts)

end

theorem width_le_widths {ts : List Ty} (h : t ∈ ts) : t.width ≤ widths ts := by
  induction ts with
  | nil => cases h
  | cons u us ih =>
    rw [widths]
    rcases List.mem_cons.1 h with rfl | h
    · exact le_max_left _ _
    · exact (ih h).trans (le_max_right _ _)

/-- A ground type for each variable that is found in no type of width `n`. -/
def mark (n v : Nat) : GroundTy := .fn (List.replicate (n + v) (.base .int)) (.base .int)

mutual

/-- The type with variables in the place of their marks. -/
def unmark (n : Nat) : Ty → Ty
  | .base b => .base b
  | .var v => .var v
  | .fn params result =>
    if n ≤ params.length then .var (params.length - n)
    else .fn (unmarks n params) (result.unmark n)

/-- Some types with variables in the place of their marks. -/
def unmarks (n : Nat) : List Ty → List Ty
  | [] => []
  | t :: ts => t.unmark n :: unmarks n ts

end

theorem unmarks_eq_map (n : Nat) (ts : List Ty) : unmarks n ts = ts.map (unmark n) := by
  induction ts with
  | nil => rfl
  | cons t ts ih => rw [unmarks, ih, List.map_cons]

theorem unmark_mark (n v : Nat) : (mark n v).toTy.unmark n = .var v := by
  rw [mark, GroundTy.toTy_fn, unmark, List.length_map, List.length_replicate,
    if_pos (Nat.le_add_right n v), Nat.add_sub_cancel_left]

/-- The type itself has no marks, so all marks are in what its variables are replaced by. -/
theorem unmark_subst (h : t.width ≤ n) :
    (t.subst σ).unmark n = t.subst fun v => (σ v).unmark n := by
  induction t with
  | base b => rfl
  | var v => rfl
  | fn params result ihp ihr =>
    rw [width, max_le_iff, max_le_iff] at h
    obtain ⟨hlen, hparams, hresult⟩ := h
    have hnot : ¬ n ≤ (params.map (subst σ)).length := by
      rw [List.length_map]
      omega
    rw [subst_fn, unmark, if_neg hnot, unmarks_eq_map, subst_fn, ihr hresult, List.map_map]
    refine congrArg (Ty.fn · _) (List.map_congr_left fun p hp => ?_)
    exact ihp p hp ((width_le_widths hp).trans hparams)

/-- A type whose ground instances are instances of another is an instance of the other. -/
theorem exists_subst_of_ground (h : ∀ g, ∃ g', t.ground g = u.ground g') :
    ∃ σ, t = u.subst σ := by
  let n := max t.width u.width
  obtain ⟨g, hg⟩ := h (mark n)
  refine ⟨fun v => (g v).toTy.unmark n, ?_⟩
  have hty : t.subst (fun v => (mark n v).toTy) = u.subst fun v => (g v).toTy := by
    rw [← toTy_ground, ← toTy_ground, hg]
  calc t = t.subst fun v => (mark n v).toTy.unmark n := by
        simp only [unmark_mark, subst_var]
    _ = (t.subst fun v => (mark n v).toTy).unmark n := (unmark_subst (le_max_left _ _)).symm
    _ = (u.subst fun v => (g v).toTy).unmark n := by rw [hty]
    _ = u.subst fun v => (g v).toTy.unmark n := unmark_subst (le_max_right _ _)

/-- Types whose ground instances are instances of others are instances of the others.  There may be
any number of them, and the variables are replaced in all alike. -/
theorem exists_subst_of_instances {ts us : List Ty}
    (h : ∀ g, ∃ g', ts.map (ground g) = us.map (ground g')) :
    ∃ σ, ts = us.map (subst σ) := by
  -- as the parameters of one function type they are one type
  obtain ⟨σ, hσ⟩ : ∃ σ, Ty.fn ts (.base .int) = (Ty.fn us (.base .int)).subst σ :=
    exists_subst_of_ground fun g => by
      obtain ⟨g', hg'⟩ := h g
      exact ⟨g', by rw [ground_fn, ground_fn, hg', ground, ground]⟩
  rw [subst_fn] at hσ
  exact ⟨σ, (Ty.fn.inj hσ).1⟩

/-- **Types with the same ground instances differ in the names of variables only.**  There may be
any number of them, and the variables are renamed in all alike. -/
theorem exists_rename_of_instances {ts us : List Ty}
    (h : ∀ g, ∃ g', ts.map (ground g) = us.map (ground g'))
    (h' : ∀ g, ∃ g', us.map (ground g) = ts.map (ground g')) :
    ∃ ρ : Equiv.Perm Nat, us = ts.map (rename ρ) := by
  obtain ⟨σ, hσ⟩ := exists_subst_of_instances h
  obtain ⟨τ, hτ⟩ := exists_subst_of_instances h'
  have hfn : ∀ {ts us : List Ty} {σ : Nat → Ty}, ts = us.map (subst σ) →
      Ty.fn ts (.base .int) = (Ty.fn us (.base .int)).subst σ := by
    rintro _ us σ rfl
    rw [subst_fn]
    rfl
  obtain ⟨ρ, hρ⟩ := exists_rename_of_subst (hfn hτ) (hfn hσ)
  rw [rename, subst_fn] at hρ
  exact ⟨ρ, (Ty.fn.inj hρ).1⟩

end Ty

end SimpleLang
