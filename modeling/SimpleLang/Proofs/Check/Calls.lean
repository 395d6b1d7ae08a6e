import SimpleLang.Proofs.Check.Expr
import SimpleLang.Proofs.Types.Access
import SimpleLang.Proofs.Types.Variants

/-!
# One rule for calls

A call is checked in one of two ways.  If its callee is known to be a function, the number of
arguments is compared first, and each argument is required to have the type of its parameter before
the next one is looked at.  If nothing is known of the callee, all arguments are looked at first,
which may make it known.

Both come to the same as one rule that never asks what is known (`Checker.uniformCall`): it looks
at all arguments and makes the type of the callee equal to the function type that the call asks
for.  The rule accepts the same calls, and then all types are the same but for the names of
variables (`Checker.call_uniform`).

The argument: both decide the same typing rule, and two ways to decide one relation leave the same
ground types possible (`Checker.Decides.exists_rename`).
-/

namespace SimpleLang

/-! ### The return type does not matter -/

/-- The sessions differ in the return type at most. -/
def Session.SameButReturn (s s' : Session) : Prop :=
  s'.toInference = s.toInference ∧ s'.scopes = s.scopes

namespace Checker

open Session (SameButReturn)

variable {α : Type} {s s' : Session} {position : Position}

section Steps

variable (h : s.SameButReturn s')

include h

theorem infer_sameOutcome (work : Unifier α) :
    SameOutcome SameButReturn (infer position work s) (infer position work s') := by
  rw [infer, infer, h.1]
  rcases work s.toInference with ⟨a, i⟩ | ⟨e, i⟩
  · exact .ok ⟨rfl, h.2⟩
  · exact .error ⟨rfl, h.2⟩

theorem onTypes_sameOutcome (f : TypeStore → α × TypeStore) :
    SameOutcome SameButReturn (onTypes f s) (onTypes f s') := by
  have hrun : ∀ t : Session, onTypes f t =
      .ok (f t.types).1 { t with toInference := ⟨(f t.types).2, t.log⟩ } := fun _ => rfl
  rw [hrun s, hrun s', h.1]
  exact .ok ⟨rfl, h.2⟩

theorem lookup_sameOutcome (x : String) :
    SameOutcome SameButReturn (lookup x position s) (lookup x position s') := by
  cases hl : s.scopes.lookup? x with
  | none =>
    rw [lookup_of_none hl, lookup_of_none (by rw [h.2, hl])]
    exact .error h
  | some i =>
    rw [lookup_of_some hl, lookup_of_some (by rw [h.2, hl])]
    exact .ok h

theorem display_sameOutcome (i : NodeId) :
    SameOutcome SameButReturn (display i s) (display i s') := by
  have hrun : ∀ t : Session, display i t = .ok (t.types.display i) t := fun _ => rfl
  rw [hrun s, hrun s', h.1]
  exact .ok h

theorem operation_sameOutcome (op : BinaryOp) (left right : NodeId) (p q : Position) :
    SameOutcome SameButReturn (operation op left right p q s)
      (operation op left right p q s') := by
  rw [operation]
  cases operandType op with
  | none => exact (infer_sameOutcome h _).bind fun _ t t' ht => .ok ht
  | some b =>
    refine (infer_sameOutcome h _).bind fun _ t t' ht => ?_
    exact (infer_sameOutcome ht _).bind fun _ u u' hu => .ok hu

end Steps

mutual

/-- Checking an expression asks for the return type nowhere. -/
theorem expr_sameOutcome : ∀ (e : Expr) {s s' : Session}, s.SameButReturn s' →
    SameOutcome SameButReturn (expr e s) (expr e s')
  | .name span x, s, s', h => by
    rw [expr]
    exact lookup_sameOutcome h x
  | .int _ _, s, s', h => by
    rw [expr]
    exact .ok h
  | .bool _ _, s, s', h => by
    rw [expr]
    exact .ok h
  | .binary _ left op right, s, s', h => by
    rw [expr]
    refine (expr_sameOutcome left h).bind fun l t t' ht => ?_
    refine (expr_sameOutcome right ht).bind fun r u u' hu => ?_
    exact operation_sameOutcome hu op l r _ _
  | .call span callee arguments, s, s', h => by
    rw [expr]
    refine (lookup_sameOutcome h callee).bind fun type t t' ht => ?_
    refine (infer_sameOutcome ht _).bind ?_
    rintro ⟨root, node⟩ u u' hu
    rcases node with b | ⟨id, _ | j⟩ | ⟨result, params⟩
    · exact (display_sameOutcome hu root).bind fun _ v v' hv => .error hv
    · refine (inferArguments_sameOutcome arguments hu).bind fun types v v' hv => ?_
      refine (onTypes_sameOutcome hv _).bind fun result w w' hw => ?_
      refine (onTypes_sameOutcome hw _).bind fun inferred x x' hx => ?_
      exact (infer_sameOutcome hx _).bind fun _ y y' hy => .ok hy
    · exact (display_sameOutcome hu root).bind fun _ v v' hv => .error hv
    · dsimp only
      split
      · exact (checkArguments_sameOutcome arguments hu).bind fun _ v v' hv => .ok hv
      · exact .error hu

theorem checkArguments_sameOutcome : ∀ (arguments : List Expr) {params : List NodeId}
    {s s' : Session}, s.SameButReturn s' →
    SameOutcome SameButReturn (checkArguments params arguments s)
      (checkArguments params arguments s')
  | [], params, s, s', h => by
    cases params <;> simp only [checkArguments] <;> exact .ok h
  | e :: es, [], s, s', h => by
    simp only [checkArguments]
    exact .ok h
  | e :: es, p :: ps, s, s', h => by
    rw [checkArguments]
    refine (expr_sameOutcome e h).bind fun i t t' ht => ?_
    exact (infer_sameOutcome ht _).bind fun _ u u' hu => checkArguments_sameOutcome es hu

theorem inferArguments_sameOutcome : ∀ (arguments : List Expr) {s s' : Session},
    s.SameButReturn s' →
    SameOutcome SameButReturn (inferArguments arguments s) (inferArguments arguments s')
  | [], s, s', h => by
    rw [inferArguments]
    exact .ok h
  | e :: es, s, s', h => by
    rw [inferArguments]
    refine (expr_sameOutcome e h).bind fun i t t' ht => ?_
    exact (inferArguments_sameOutcome es ht).bind fun is u u' hu => .ok hu

end

/-! ### Two ways to decide one relation -/

/-- Two outcomes of work on the same `n` nodes: either both accept or neither does, and if both do,
the nodes and the results have the same types but for the names of unbound variables, which are
renamed in all types alike. -/
structure Equivalent (n : Nat) (r r' : EStateM.Result (Failure Diagnostic) Session NodeId) :
    Prop where
  /-- Either both accept or neither does. -/
  accepted_iff : (∃ i t, r = .ok i t) ↔ ∃ j u, r' = .ok j u
  /-- The types are the same but for the names of variables. -/
  types : ∀ i t j u, r = .ok i t → r' = .ok j u → ∃ ρ : Equiv.Perm NodeId,
    (∀ k < n, u.types.denote k = (t.types.denote k).rename ρ) ∧
      u.types.denote j = (t.types.denote i).rename ρ

/-- Return types may differ. -/
theorem Equivalent.of_sameOutcome {n : Nat}
    {r₀ r r₀' r' : EStateM.Result (Failure Diagnostic) Session NodeId}
    (he : Equivalent n r₀ r₀') (h : SameOutcome SameButReturn r₀ r)
    (h' : SameOutcome SameButReturn r₀' r') : Equivalent n r r' := by
  cases h with
  | @ok i t₀ t ht =>
    cases h' with
    | @ok j u₀ u hu =>
      refine ⟨by simp, ?_⟩
      rintro _ _ _ _ ⟨⟩ ⟨⟩
      have htypes := he.types i t₀ j u₀ rfl rfl
      rwa [← ht.1, ← hu.1] at htypes
    | error _ => simpa using he.accepted_iff
  | error _ =>
    cases h' with
    | ok _ => simpa using he.accepted_iff
    | error _ => exact ⟨by simp, by simp⟩

namespace Decides

variable {S : Scopes NodeId} {P : Valuation → GroundTy → Prop} {i j : NodeId} {t u : Session}

/-- What decides a relation accepts if something is related. -/
theorem accepts_iff {r : EStateM.Result (Failure Diagnostic) Session NodeId}
    (h : Infers S s P r) : (∃ i t, r = .ok i t) ↔ ∃ M τ, s.types.Admits M ∧ P M τ := by
  cases h with
  | @accepted i t hg _ hsound _ =>
    have hM := TypeStore.admits_groundAt hg.valid.types.toWellFormed fun _ => .base .int
    exact iff_of_true ⟨i, t, rfl⟩ ⟨_, _, hg.types.admits hM, hsound _ hM⟩
  | rejected _ himp =>
    refine iff_of_false (by simp) ?_
    rintro ⟨M, τ, hM, hτ⟩
    exact himp M τ hM hτ

/-- The types of the result and of the nodes that were there. -/
def outcomeTypes (s : Session) (i : NodeId) (t : Session) : List Ty :=
  (i :: List.range s.types.size).map t.types.denote

/-- Every instance of the types after the one is an instance of those after the other. -/
theorem exists_instance (h : Infers S s P (.ok i t)) (h' : Infers S s P (.ok j u))
    (g : Nat → GroundTy) : ∃ g' : Nat → GroundTy,
      (outcomeTypes s i t).map (Ty.ground g) = (outcomeTypes s j u).map (Ty.ground g') := by
  cases h with
  | accepted hg _ hsound _ =>
    cases h' with
    | accepted hg' _ _ hcomplete =>
      have hM := TypeStore.admits_groundAt hg.valid.types.toWellFormed g
      obtain ⟨M', hM', hagree, hj⟩ := hcomplete _ _ (hg.types.admits hM) (hsound _ hM)
      refine ⟨M', ?_⟩
      -- both are the valuations of the nodes, which agree
      have hground : ∀ k, (u.types.denote k).ground M' = M' k := fun k =>
        (hM'.eq_groundAt hg'.valid.types.toWellFormed k).symm
      simp only [outcomeTypes, List.map_cons, List.map_map, hground, hj]
      congr 1
      refine List.map_congr_left fun k hk => ?_
      rw [Function.comp_apply, Function.comp_apply, hground, hagree k (List.mem_range.1 hk)]
      rfl

/-- **Two ways to decide one relation leave the same types**, but for the names of variables. -/
theorem exists_rename (h : Infers S s P (.ok i t)) (h' : Infers S s P (.ok j u)) :
    ∃ ρ : Equiv.Perm NodeId,
      (∀ k < s.types.size, u.types.denote k = (t.types.denote k).rename ρ) ∧
        u.types.denote j = (t.types.denote i).rename ρ := by
  obtain ⟨ρ, hρ⟩ := Ty.exists_rename_of_instances (exists_instance h h') (exists_instance h' h)
  rw [outcomeTypes, outcomeTypes, List.map_cons, List.map_cons, List.map_cons, List.map_map,
    List.cons.injEq, List.map_inj_left] at hρ
  exact ⟨ρ, fun k hk => hρ.2 k (List.mem_range.2 hk), hρ.1⟩

end Decides

/-- Two ways to decide one relation come to equivalent outcomes. -/
theorem Decides.equivalent {S : Scopes NodeId} {P : Valuation → GroundTy → Prop}
    {r r' : EStateM.Result (Failure Diagnostic) Session NodeId} (h : Infers S s P r)
    (h' : Infers S s P r') : Equivalent s.types.size r r' := by
  refine ⟨h.accepts_iff.trans h'.accepts_iff.symm, ?_⟩
  rintro i t j u rfl rfl
  exact h.exists_rename h'

/-! ### The uniform rule -/

/-- The type of a call, whatever is known of the callee: all arguments are looked at, and the callee
is made equal to the function type that the call asks for. -/
def uniformCall (span : Span) (callee : String) (arguments : List Expr) : Checker NodeId := do
  let type ← lookup callee span.start
  let types ← inferArguments arguments
  let result ← onTypes (·.fresh)
  let inferred ← onTypes (·.function result types)
  unify type inferred span.start
  return result

variable {span : Span} {callee : String} {arguments : List Expr}

theorem uniformCall_sameOutcome (h : s.SameButReturn s') :
    SameOutcome SameButReturn (uniformCall span callee arguments s)
      (uniformCall span callee arguments s') := by
  refine (lookup_sameOutcome h callee).bind fun type t t' ht => ?_
  refine (inferArguments_sameOutcome arguments ht).bind fun types u u' hu => ?_
  refine (onTypes_sameOutcome hu _).bind fun result v v' hv => ?_
  refine (onTypes_sameOutcome hv _).bind fun inferred w w' hw => ?_
  exact (infer_sameOutcome hw _).bind fun _ x x' hx => .ok hx

/-- The uniform rule infers the types that the typing rule allows. -/
theorem uniformCall_infers (hs : s.Valid) :
    Infers s.scopes s (fun M ρ => ExprTyped (s.scopes.context M) (.call span callee arguments) ρ)
      (uniformCall span callee arguments s) := by
  refine (lookup_infers hs rfl callee).bind
    (Q := fun M τ ρ => ∃ τs, τ = .fn τs ρ ∧ ArgumentsTyped (s.scopes.context M) arguments τs)
    (fun M ρ _ => exprTyped_call_iff)
    (fun M M' hagree => by rw [hs.context_congr rfl hagree]) ?_
  rintro type t hg ⟨hscopes, htype⟩ -
  exact unknown_call_infers htype (inferArguments_infers arguments hg.valid hscopes)

theorem uniformCall_equivalent (hs : s.Valid) :
    Equivalent s.types.size (expr (.call span callee arguments) s)
      (uniformCall span callee arguments s) :=
  (expr_infers (.call span callee arguments) hs rfl).equivalent (uniformCall_infers hs)

/-- **It makes no difference what is known of a callee.**  In every session with a valid store, in
which names are declared with nodes of the store, a call is accepted exactly if the uniform rule
accepts it, and then it has the same type, and leaves all types from before the same, but for the
names of unbound variables. -/
theorem call_uniform (hs : s.types.Valid)
    (hscopes : ∀ scope ∈ s.scopes.stack, ∀ d ∈ scope, d.2 < s.types.size) (span : Span)
    (callee : String) (arguments : List Expr) :
    Equivalent s.types.size (expr (.call span callee arguments) s)
      (uniformCall span callee arguments s) := by
  cases hl : s.scopes.lookup? callee with
  | none =>
    -- neither gets further than the name
    rw [expr, bind_of_error (lookup_of_none hl), uniformCall, bind_of_error (lookup_of_none hl)]
    exact ⟨by simp, by simp⟩
  | some type =>
    have hopened : s.scopes.stack ≠ [] := by
      intro hnil
      rw [Scopes.lookup?, hnil] at hl
      cases hl
    have hvalid : ({ s with returnType := none } : Session).Valid :=
      ⟨hs, hscopes, hopened, by simp⟩
    have hsame : ({ s with returnType := none } : Session).SameButReturn s := ⟨rfl, rfl⟩
    exact (uniformCall_equivalent hvalid).of_sameOutcome (expr_sameOutcome _ hsame)
      (uniformCall_sameOutcome hsame)

/-- The call `f(f(x))` where `f` has the type `(t0) -> t1`, known before, and `x` the type `t2`.
All three variables become one, which is that of the result of `f`, or a new one by the uniform
rule. -/
theorem call_uniform_nested :
    let types := ((TypeStore.initial.fresh.2.fresh.2.function 3 [2]).2.fresh).2
    let s : Session := ⟨⟨types, #[]⟩, ⟨[[("f", 4), ("x", 5)]]⟩, none⟩
    let span : Span := ⟨⟨0, ""⟩, ⟨0, ""⟩⟩
    let argument : Expr := .call span "f" [.name span "x"]
    s.types.Valid ∧ (∀ scope ∈ s.scopes.stack, ∀ d ∈ scope, d.2 < s.types.size) ∧
      ∃ i t j u, ∃ ρ : Equiv.Perm NodeId, expr (.call span "f" [argument]) s = .ok i t ∧
        uniformCall span "f" [argument] s = .ok j u ∧ t.types.denote i = .var 3 ∧
        u.types.denote j = .var 6 ∧ ρ 3 = 6 ∧
        ∀ k < s.types.size, u.types.denote k = (t.types.denote k).rename ρ := by
  intro types s span argument
  have hs : s.types.Valid :=
    ((TypeStore.valid_initial.fresh.fresh).function (by decide)).fresh
  have hscopes : ∀ scope ∈ s.scopes.stack, ∀ d ∈ scope, d.2 < s.types.size := by decide
  have hrun : (match expr (.call span "f" [argument]) s with
      | .ok i t => some (i, t.types.node? i)
      | .error _ _ => none) = some (3, some (.var 1 none)) := by decide +kernel
  have hrun' : (match uniformCall span "f" [argument] s with
      | .ok j u => some (j, u.types.node? j)
      | .error _ _ => none) = some (6, some (.var 3 none)) := by decide +kernel
  have hsame := call_uniform hs hscopes span "f" [argument]
  rcases hr : expr (.call span "f" [argument]) s with ⟨i, t⟩ | ⟨e, t⟩
  · rcases hr' : uniformCall span "f" [argument] s with ⟨j, u⟩ | ⟨e, u⟩
    · obtain ⟨ρ, hall, hresult⟩ := hsame.types i t j u hr hr'
      rw [hr] at hrun
      rw [hr'] at hrun'
      obtain ⟨rfl, hi⟩ := Prod.mk.inj (Option.some.inj hrun)
      obtain ⟨rfl, hj⟩ := Prod.mk.inj (Option.some.inj hrun')
      have hvar := TypeStore.denote_unbound hi
      have hvar' := TypeStore.denote_unbound hj
      refine ⟨hs, hscopes, 3, t, 6, u, ρ, rfl, rfl, hvar, hvar', ?_, hall⟩
      rw [hvar, hvar'] at hresult
      exact (Ty.var.inj hresult).symm
    · rw [hr'] at hrun'
      cases hrun'
  · rw [hr] at hrun
    cases hrun

end Checker

end SimpleLang
