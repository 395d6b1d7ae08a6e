import SimpleLang.Proofs.Check.Correspondence

/-!
# Types are only ever refined

Whatever a check does to its store makes types more definite at most
(`TypeStore.MoreDefinite`): nodes stay, constants and function types stay what they are, variables
keep their numbers and their being bound, and what every node stands for is an instance of what it
stood for, by one substitution for the unbound variables.  So nodes of one type keep one type, and a
constant or a function type of so many parameters is never lost again.

This holds of each operation of the checker in every well-formed session, whether it succeeds or
rejects, and so of any number of them (`Session.WellFormed.only_refined`).
-/

namespace SimpleLang

namespace TypeStore

variable {s s' : TypeStore}

/-- Types have become more definite at most. -/
structure MoreDefinite (s s' : TypeStore) : Prop where
  /-- No node is removed. -/
  size_le : s.size ≤ s'.size
  /-- Constants are unchanged. -/
  constant : ∀ i t, s.node? i = some (.constant t) → s'.node? i = some (.constant t)
  /-- Function types are unchanged. -/
  function : ∀ i result params, s.node? i = some (.function result params) →
    s'.node? i = some (.function result params)
  /-- Variables keep their numbers, and once bound stay bound. -/
  var : ∀ i id binding, s.node? i = some (.var id binding) →
    ∃ binding', s'.node? i = some (.var id binding') ∧ (binding.isSome → binding'.isSome)
  /-- One substitution for variables that were unbound has been applied to all types. -/
  subst : ∃ σ : NodeId → Ty, (∀ v, s.isUnbound v = false → σ v = .var v) ∧
    ∀ i < s.size, s'.denote i = (s.denote i).subst σ
  /-- Equal types stay equal. -/
  equal : ∀ i < s.size, ∀ j < s.size, s.denote i = s.denote j → s'.denote i = s'.denote j
  /-- A constant stays that constant. -/
  base : ∀ i < s.size, ∀ t, s.denote i = .base t → s'.denote i = .base t
  /-- A function type stays one of so many parameters. -/
  arity : ∀ i < s.size, ∀ params result, s.denote i = .fn params result →
    ∃ params' result', s'.denote i = .fn params' result' ∧ params'.length = params.length

namespace Extends

open Unifier (bindings denote_eq_subst_bindings_of_lt)

theorem moreDefinite (h : s.Extends s') (hs : s.WellFormed) (hs' : s'.WellFormed) :
    s.MoreDefinite s' where
  size_le := h.size_le
  constant _ _ := h.constant
  function _ _ _ := h.function
  var i id binding hn := by
    obtain ⟨n', hn', hk⟩ := h.kept i _ hn
    cases hk with
    | same => exact ⟨binding, hn', fun hb => hb⟩
    | bound _ _ target => exact ⟨some target, hn', fun _ => rfl⟩
  subst := by
    refine ⟨bindings s s', fun v hv => ?_, fun i hi =>
      denote_eq_subst_bindings_of_lt hs h hs' hi⟩
    unfold bindings
    split
    · rename_i id hn
      rw [isUnbound, hn] at hv
      cases hv
    · rfl
  equal i _ j _ heq := by rw [h.denote_eq hs hs' i, heq, ← h.denote_eq hs hs' j]
  base i _ t ht := by rw [h.denote_eq hs hs' i, ht, Ty.subst_base]
  arity i _ params result hf := by
    refine ⟨params.map (Ty.subst s'.denote), result.subst s'.denote, ?_, List.length_map _⟩
    rw [h.denote_eq hs hs' i, hf, Ty.subst_fn]

end Extends

end TypeStore

/-! ### The operations of the checker -/

/-- The operations that work on a session's types. -/
inductive Operation where
  /-- The representative of a type is found. -/
  | find (type : NodeId)
  /-- Two types are made equal. -/
  | unify (expected received : NodeId) (position : Position)
  /-- An expression is checked. -/
  | expr (e : Expr)
  /-- A variable is declared. -/
  | declaration (d : Decl)
  /-- A statement is checked. -/
  | stmt (st : Stmt)
  /-- A function is declared. -/
  | signature (f : FuncDef)
  /-- The body of a function is checked. -/
  | function (f : FuncDef)

namespace Operation

open Checker (Corresponds onTypes)

variable {s s' : Session}

/-- What an operation does. -/
def run : Operation → Checker Unit
  | .find type => do
    let _ ← onTypes (·.find type)
  | .unify expected received position => Checker.unify expected received position
  | .expr e => do
    let _ ← Checker.expr e
  | .declaration d => do
    let _ ← Checker.declaration d
  | .stmt st => Checker.stmt st
  | .signature f => do
    let _ ← Checker.signature f
  | .function f => Checker.function f

/-- The types that an operation is given are there. -/
def Fits (s : Session) : Operation → Prop
  | .find type => type < s.types.size
  | .unify expected received _ => expected < s.types.size ∧ received < s.types.size
  | _ => True

/-- The operation succeeds or rejects, in session `s'`. -/
def Ends (op : Operation) (s s' : Session) : Prop :=
  op.run s = .ok () s' ∨ ∃ d, op.run s = .error (.rejected d) s'

/-- A part of a check, seen as an operation. -/
theorem discard_corresponds {α : Type} {x : Checker α} {F : Session → Prop}
    {post : α → Session → Prop} {r' : EStateM.Result (Failure Diagnostic) Session α}
    (hx : Corresponds Access.Same F post (x s) r') (hF : ∀ t, F t → s.types.Extends t.types) :
    Corresponds Access.Same (fun t => s.types.Extends t.types) (fun _ _ => True)
      ((do let _ ← x : Checker Unit) s) ((do let _ ← x : Checker Unit) s) :=
  hx.self_seq hF fun _ _ ht hFt _ => .accepted ht.related (hF _ hFt) trivial

/-- Every operation keeps a session well formed and extends its types. -/
theorem run_corresponds (hs : s.WellFormed) : ∀ op : Operation, op.Fits s →
    Corresponds Access.Same (fun t => s.types.Extends t.types) (fun _ _ => True) (op.run s)
      (op.run s) := by
  have h := Access.standard_faithful.simulates
  have hframe : ∀ t, s.Frame (fun _ => True) t → s.types.Extends t.types := fun _ h => h.types
  intro op hop
  cases op with
  | find type =>
    have hfind := TypeStore.find_sameTypes hs.types type
    have hwf : ({ s with types := (s.types.find type).2 } : Session).WellFormed :=
      hs.of_types (i := ⟨(s.types.find type).2, s.log⟩) hfind.wellFormed
        (Nat.le_of_eq hfind.size_eq.symm)
    exact .accepted hwf.related hfind.toExtends trivial
  | unify expected received position =>
    exact (Checker.unify_corresponds h hs.related hop.1 hop.2).self.imp hframe fun _ _ _ h => h
  | expr e => exact discard_corresponds (Checker.expr_corresponds h e hs.related) hframe
  | declaration d =>
    exact discard_corresponds (Checker.declaration_corresponds h hs.related d trivial) hframe
  | stmt st =>
    exact (Checker.stmt_corresponds h st hs.related fun _ _ => trivial).self.imp hframe
      fun _ _ _ h => h
  | signature f =>
    exact discard_corresponds (Checker.signature_corresponds h hs.related f trivial) hframe
  | function f =>
    exact (Checker.function_corresponds h hs.related f).self.imp (fun _ h => h.types)
      fun _ _ _ h => h

/-- No operation breaks a contract. -/
theorem exists_ends (hs : s.WellFormed) (op : Operation) (hop : op.Fits s) :
    ∃ s', op.Ends s s' := by
  have hrun := run_corresponds hs op hop
  rcases hr : op.run s with ⟨_, s'⟩ | ⟨e, s'⟩
  · exact ⟨s', .inl hr⟩
  · rw [hr] at hrun
    obtain ⟨d, rfl, -⟩ := hrun.of_error
    exact ⟨s', .inr ⟨d, hr⟩⟩

theorem Ends.extends (hs : s.WellFormed) {op : Operation} (hop : op.Fits s)
    (h : op.Ends s s') : s'.WellFormed ∧ s.types.Extends s'.types := by
  have hrun := run_corresponds hs op hop
  rcases h with h | ⟨d, h⟩
  · rw [h] at hrun
    exact ⟨hrun.of_ok.1, hrun.of_ok.2.1⟩
  · rw [h] at hrun
    obtain ⟨-, -, hwf, hext⟩ := hrun.of_error
    exact ⟨hwf, hext⟩

/-- What happens next in the course of a check. -/
inductive Step : Session → Session → Prop
  /-- An operation is done, with success or without. -/
  | operation {s s' : Session} (op : Operation) : op.Fits s → op.Ends s s' → Step s s'
  /-- Scopes are opened or closed, names declared, the return type is set: no type changes. -/
  | arranged {s s' : Session} : s'.types = s.types → s'.WellFormed → Step s s'

theorem Step.extends (hs : s.WellFormed) (h : Step s s') :
    s'.WellFormed ∧ s.types.Extends s'.types := by
  cases h with
  | operation op hop hends => exact hends.extends hs hop
  | arranged htypes hwf => exact ⟨hwf, htypes ▸ .refl _⟩

theorem steps_extends (hs : s.WellFormed) (h : Relation.ReflTransGen Step s s') :
    s'.WellFormed ∧ s.types.Extends s'.types := by
  induction h with
  | refl => exact ⟨hs, .refl _⟩
  | tail _ hstep ih =>
    obtain ⟨hwf, hext⟩ := hstep.extends ih.1
    exact ⟨hwf, ih.2.trans hext⟩

end Operation

/-- **Types are only ever refined.**  Started in a well-formed session, every operation on nodes that
are there succeeds or rejects, and whatever happens from there on in the course of a check, types
become more definite at most. -/
theorem Session.WellFormed.only_refined {s : Session} (hs : s.WellFormed) :
    (∀ op : Operation, op.Fits s →
      ∃ s', op.Ends s s' ∧ s'.WellFormed ∧ s.types.MoreDefinite s'.types) ∧
    ∀ s', Relation.ReflTransGen Operation.Step s s' →
      s'.WellFormed ∧ s.types.MoreDefinite s'.types := by
  constructor
  · intro op hop
    obtain ⟨s', hends⟩ := Operation.exists_ends hs op hop
    obtain ⟨hwf, hext⟩ := hends.extends hs hop
    exact ⟨s', hends, hwf, hext.moreDefinite hs.types hwf.types⟩
  · intro s' hsteps
    obtain ⟨hwf, hext⟩ := Operation.steps_extends hs hsteps
    exact ⟨hwf, hext.moreDefinite hs.types hwf.types⟩

/-- A comparison of `(int) -> t0` with `(bool) -> int` that is rejected after binding `t0`, followed
by another. -/
theorem Session.WellFormed.only_refined_after_clash :
    let types := ((TypeStore.initial.fresh.2.function 2 [0]).2.function 0 [1]).2
    let s : Session := ⟨⟨types, #[]⟩, .initial, none⟩
    let clash := Operation.unify 3 4 ⟨0, ""⟩
    s.WellFormed ∧ clash.Fits s ∧ ∃ s' s'', clash.Ends s s' ∧ clash.Ends s' s'' ∧
      s.types.MoreDefinite s'.types ∧ s.types.MoreDefinite s''.types := by
  intro types s clash
  have htypes : types.WellFormed :=
    TypeStore.wellFormed_function (TypeStore.wellFormed_function (TypeStore.wellFormed_fresh
      TypeStore.wellFormed_initial) (by decide)) (by decide)
  have hs : s.WellFormed :=
    ⟨htypes, fun t => by cases t <;> decide, by simp [s, Scopes.initial],
      by simp [s, Scopes.initial], by simp [s]⟩
  have hfits : clash.Fits s := ⟨by decide, by decide⟩
  obtain ⟨s', hends, hwf, hdef⟩ := hs.only_refined.1 clash hfits
  have hfits' : clash.Fits s' :=
    ⟨Nat.lt_of_lt_of_le hfits.1 hdef.size_le, Nat.lt_of_lt_of_le hfits.2 hdef.size_le⟩
  obtain ⟨s'', hends', -, -⟩ := hwf.only_refined.1 clash hfits'
  have hsteps : Relation.ReflTransGen Operation.Step s s'' :=
    .tail (.single (.operation clash hfits hends)) (.operation clash hfits' hends')
  exact ⟨hs, hfits, s', s'', hends, hends', hdef, (hs.only_refined.2 s'' hsteps).2⟩

end SimpleLang
