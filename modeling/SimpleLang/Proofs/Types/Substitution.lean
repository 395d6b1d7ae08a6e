import SimpleLang.Types.Store
import Mathlib.Logic.Relation

/-!
# Substitution in types

A substitution gives a type to every variable, and `Ty.subst` puts it to work.  The *parts* of a
type are what it is built from: types are finite, so none is a part of itself
(`Ty.Part.irrefl`), and substitution carries parts to parts (`Ty.Part.subst`).  Together these
say why a variable cannot be made equal to a type around it.

A *ground* type has no variables.  Ground types are types of their own here (`GroundTy`), with an
embedding into all types.

## Main definitions

* `Ty.subst σ t` : the type `t` with `σ v` in the place of every variable `v`.
* `Ty.Part t u` : the type `t` stands properly inside of `u`.
* `Ty.MostGeneral θ t u` : `θ` makes `t` and `u` equal, and every other substitution that does
  factors through `θ`.
* `Ty.ground g t` : the ground type that `t` becomes under an assignment `g`.
-/

namespace SimpleLang

namespace Ty

/-- Induction on types, with a hypothesis for every parameter of a function type. -/
@[induction_eliminator]
theorem induct {P : Ty → Prop} (base : ∀ b, P (.base b)) (var : ∀ v, P (.var v))
    (fn : ∀ params result, (∀ p ∈ params, P p) → P result → P (.fn params result)) :
    ∀ t, P t
  | .base b => base b
  | .var v => var v
  | .fn params result =>
    fn params result (fun p _ => induct base var fn p) (induct base var fn result)

mutual

/-- The type with `σ v` in the place of every variable `v`. -/
def subst (σ : Nat → Ty) : Ty → Ty
  | .base b => .base b
  | .var v => σ v
  | .fn params result => .fn (substs σ params) (result.subst σ)

/-- Substitution in each of some types. -/
def substs (σ : Nat → Ty) : List Ty → List Ty
  | [] => []
  | t :: ts => t.subst σ :: substs σ ts

end

theorem substs_eq_map (σ : Nat → Ty) (ts : List Ty) : substs σ ts = ts.map (subst σ) := by
  induction ts with
  | nil => rfl
  | cons t ts ih => rw [substs, ih, List.map_cons]

@[simp] theorem subst_base (σ : Nat → Ty) (b : BaseType) : (base b).subst σ = .base b := rfl

@[simp] theorem subst_variable (σ : Nat → Ty) (v : Nat) : (var v).subst σ = σ v := rfl

@[simp] theorem subst_fn (σ : Nat → Ty) (params : List Ty) (result : Ty) :
    (fn params result).subst σ = .fn (params.map (subst σ)) (result.subst σ) := by
  rw [subst, substs_eq_map]

theorem subst_var (t : Ty) : t.subst .var = t := by
  induction t with
  | base b => rfl
  | var v => rfl
  | fn params result ihp ihr =>
    rw [subst_fn, ihr, List.map_congr_left ihp, List.map_id']

/-! ### Parts -/

/-- The type `t` is the result or a parameter of the function type `u`. -/
def Component (t u : Ty) : Prop := ∃ params result, u = .fn params result ∧ t ∈ result :: params

/-- The type `t` stands properly inside of `u`. -/
def Part (t u : Ty) : Prop := Relation.TransGen Component t u

/-- The variable `v` appears in the type `t`. -/
def Mentions (v : Nat) (t : Ty) : Prop := Relation.ReflTransGen Component (.var v) t

theorem Component.sizeOf_lt {t u : Ty} (h : Component t u) : sizeOf t < sizeOf u := by
  obtain ⟨params, result, rfl, ht⟩ := h
  rcases List.mem_cons.1 ht with rfl | ht
  · simp only [Ty.fn.sizeOf_spec]
    omega
  · have := List.sizeOf_lt_of_mem ht
    simp only [Ty.fn.sizeOf_spec]
    omega

theorem Component.subst {t u : Ty} (h : Component t u) (σ : Nat → Ty) :
    Component (t.subst σ) (u.subst σ) := by
  obtain ⟨params, result, rfl, ht⟩ := h
  refine ⟨_, _, subst_fn σ params result, ?_⟩
  rw [← List.map_cons]
  exact List.mem_map_of_mem ht

/-- Types are finite: none stands inside of itself. -/
theorem Part.irrefl (t : Ty) : ¬ Part t t := by
  have key : ∀ {t u : Ty}, Part t u → sizeOf t < sizeOf u := by
    intro t u h
    induction h with
    | single h => exact h.sizeOf_lt
    | tail _ h ih => exact Nat.lt_trans ih h.sizeOf_lt
  exact fun h => Nat.lt_irrefl _ (key h)

theorem Part.subst {t u : Ty} (h : Part t u) (σ : Nat → Ty) : Part (t.subst σ) (u.subst σ) :=
  Relation.TransGen.lift (Ty.subst σ) (fun _ _ h => h.subst σ) _ _ h

@[simp] theorem not_mentions_base (v : Nat) (b : BaseType) : ¬ Mentions v (.base b) := by
  intro h
  rcases h.cases_tail with h | ⟨_, -, _, _, h, -⟩ <;> cases h

@[simp] theorem mentions_var {v w : Nat} : Mentions v (.var w) ↔ v = w := by
  constructor
  · intro h
    rcases h.cases_tail with h | ⟨_, -, _, _, h, -⟩
    · exact (var.inj h).symm
    · cases h
  · rintro rfl
    exact .refl

theorem mentions_fn {v : Nat} {params : List Ty} {result : Ty} :
    Mentions v (.fn params result) ↔ ∃ t ∈ result :: params, Mentions v t := by
  constructor
  · intro h
    rcases h.cases_tail with h | ⟨t, h, _, _, he, ht⟩
    · cases h
    · cases he
      exact ⟨t, ht, h⟩
  · rintro ⟨t, ht, h⟩
    exact h.tail ⟨_, _, rfl, ht⟩

/-- A variable in a type other than itself stands properly inside of it. -/
theorem Mentions.part {v : Nat} {t : Ty} (h : Mentions v t) (hne : t ≠ .var v) :
    Part (.var v) t := by
  rcases Relation.reflTransGen_iff_eq_or_transGen.1 h with h | h
  · exact absurd h hne
  · exact h

/-- No substitution makes a variable equal to a type around it. -/
theorem Mentions.subst_ne {v : Nat} {t : Ty} (h : Mentions v t) (hne : t ≠ .var v)
    (σ : Nat → Ty) : σ v ≠ t.subst σ := by
  intro heq
  have hp := (h.part hne).subst σ
  rw [subst_variable, heq] at hp
  exact Part.irrefl _ hp

/-! ### Unifiers -/

/-- The substitution `θ` makes `t` and `u` equal, and every substitution that does so is `θ`
followed by another. -/
structure MostGeneral (θ : Nat → Ty) (t u : Ty) : Prop where
  /-- It makes them equal. -/
  unifies : t.subst θ = u.subst θ
  /-- The others factor through it. -/
  factors : ∀ σ : Nat → Ty, t.subst σ = u.subst σ → ∃ ρ : Nat → Ty, ∀ v, σ v = (θ v).subst ρ

end Ty

/-! ### Ground types -/

/-- Types without variables. -/
inductive GroundTy where
  /-- A type that can be written. -/
  | base (type : BaseType)
  /-- A function type. -/
  | fn (params : List GroundTy) (result : GroundTy)
  deriving Repr

namespace GroundTy

mutual

/-- A ground type as a type. -/
def toTy : GroundTy → Ty
  | .base b => .base b
  | .fn params result => .fn (toTys params) result.toTy

/-- Ground types as types. -/
def toTys : List GroundTy → List Ty
  | [] => []
  | t :: ts => t.toTy :: toTys ts

end

theorem toTys_eq_map (ts : List GroundTy) : toTys ts = ts.map toTy := by
  induction ts with
  | nil => rfl
  | cons t ts ih => rw [toTys, ih, List.map_cons]

@[simp] theorem toTy_base (b : BaseType) : (base b).toTy = .base b := rfl

@[simp] theorem toTy_fn (params : List GroundTy) (result : GroundTy) :
    (fn params result).toTy = .fn (params.map toTy) result.toTy := by
  rw [toTy, toTys_eq_map]

mutual

theorem eq_of_toTy_eq : ∀ {t u : GroundTy}, t.toTy = u.toTy → t = u
  | .base _, .base _, h => by rw [Ty.base.inj h]
  | .fn ts t, .fn us u, h => by
    obtain ⟨hs, hr⟩ := Ty.fn.inj h
    rw [eq_of_toTys_eq hs, eq_of_toTy_eq hr]

theorem eq_of_toTys_eq : ∀ {ts us : List GroundTy}, toTys ts = toTys us → ts = us
  | [], [], _ => rfl
  | t :: ts, u :: us, h => by
    obtain ⟨ht, hs⟩ := List.cons.inj h
    rw [eq_of_toTy_eq ht, eq_of_toTys_eq hs]

end

/-- The embedding loses nothing. -/
theorem toTy_injective : Function.Injective toTy := fun _ _ => eq_of_toTy_eq

theorem toTy_inj {t u : GroundTy} : t.toTy = u.toTy ↔ t = u := toTy_injective.eq_iff

end GroundTy

namespace Ty

mutual

/-- The ground type that a type becomes under an assignment of ground types to variables. -/
def ground (g : Nat → GroundTy) : Ty → GroundTy
  | .base b => .base b
  | .var v => g v
  | .fn params result => .fn (grounds g params) (result.ground g)

/-- The ground types that types become. -/
def grounds (g : Nat → GroundTy) : List Ty → List GroundTy
  | [] => []
  | t :: ts => t.ground g :: grounds g ts

end

theorem grounds_eq_map (g : Nat → GroundTy) (ts : List Ty) : grounds g ts = ts.map (ground g) := by
  induction ts with
  | nil => rfl
  | cons t ts ih => rw [grounds, ih, List.map_cons]

theorem ground_fn (g : Nat → GroundTy) (params : List Ty) (result : Ty) :
    (fn params result).ground g = .fn (params.map (ground g)) (result.ground g) := by
  rw [ground, grounds_eq_map]

theorem toTy_ground (g : Nat → GroundTy) (t : Ty) :
    (t.ground g).toTy = t.subst fun v => (g v).toTy := by
  induction t with
  | base b => rfl
  | var v => rfl
  | fn params result ihp ihr =>
    rw [ground_fn, GroundTy.toTy_fn, subst_fn, ihr, List.map_map]
    exact congrArg (Ty.fn · _) (List.map_congr_left ihp)

end Ty

end SimpleLang
