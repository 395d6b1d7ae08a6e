import SimpleLang.Check.Expr
import SimpleLang.Proofs.Check.Steps

/-!
# Inference for expressions

Checking an expression infers its type: the typing rules allow the types that the resulting node
can have, and no others (`Checker.expr_infers`).  A call takes one of two ways, by what is known
of the callee's type when it is met; both decide the same rule.
-/

namespace SimpleLang

variable {Γ : Context}

/-! ### The rules, read backwards -/

theorem exprTyped_name_iff {span : Span} {x : String} {τ : GroundTy} :
    ExprTyped Γ (.name span x) τ ↔ Γ.Resolves x τ :=
  ⟨fun h => by cases h; assumption, .name⟩

theorem exprTyped_int_iff {span : Span} {value : Int64} {τ : GroundTy} :
    ExprTyped Γ (.int span value) τ ↔ τ = .base .int :=
  ⟨fun h => by cases h; rfl, fun h => h ▸ .int⟩

theorem exprTyped_bool_iff {span : Span} {value : Bool} {τ : GroundTy} :
    ExprTyped Γ (.bool span value) τ ↔ τ = .base .bool :=
  ⟨fun h => by cases h; rfl, fun h => h ▸ .bool⟩

theorem exprTyped_binary_iff {span : Span} {left right : Expr} {op : BinaryOp} {ρ : GroundTy} :
    ExprTyped Γ (.binary span left op right) ρ ↔
      ∃ τ, ExprTyped Γ left τ ∧ ExprTyped Γ right τ ∧ op.Typed τ ρ := by
  constructor
  · intro h
    cases h with
    | binary hop hl hr => exact ⟨_, hl, hr, hop⟩
  · rintro ⟨τ, hl, hr, hop⟩
    exact .binary hop hl hr

theorem exprTyped_call_iff {span : Span} {callee : String} {arguments : List Expr}
    {ρ : GroundTy} :
    ExprTyped Γ (.call span callee arguments) ρ ↔
      ∃ τ, Γ.Resolves callee τ ∧ ∃ τs, τ = .fn τs ρ ∧ ArgumentsTyped Γ arguments τs := by
  constructor
  · intro h
    cases h with
    | call hf ha => exact ⟨_, hf, _, rfl, ha⟩
  · rintro ⟨_, hf, τs, rfl, ha⟩
    exact .call hf ha

theorem argumentsTyped_nil_iff {τs : List GroundTy} : ArgumentsTyped Γ [] τs ↔ τs = [] :=
  ⟨fun h => by cases h; rfl, fun h => h ▸ .nil⟩

theorem argumentsTyped_cons_iff {e : Expr} {es : List Expr} {τs : List GroundTy} :
    ArgumentsTyped Γ (e :: es) τs ↔
      ∃ τ, ExprTyped Γ e τ ∧ ∃ τs', ArgumentsTyped Γ es τs' ∧ τs = τ :: τs' := by
  constructor
  · intro h
    cases h with
    | cons he hes => exact ⟨_, he, _, hes, rfl⟩
  · rintro ⟨τ, he, τs', hes, rfl⟩
    exact .cons he hes

theorem ArgumentsTyped.length_eq {es : List Expr} {τs : List GroundTy}
    (h : ArgumentsTyped Γ es τs) : τs.length = es.length := by
  induction es generalizing τs with
  | nil => rw [argumentsTyped_nil_iff.1 h]; rfl
  | cons e es ih =>
    obtain ⟨τ, -, τs', hes, rfl⟩ := argumentsTyped_cons_iff.1 h
    rw [List.length_cons, List.length_cons, ih hes]

theorem BinaryOp.typed_iff {op : BinaryOp} {τ ρ : GroundTy} :
    op.Typed τ ρ ↔ (∀ t, Checker.operandType op = some t → τ = .base t) ∧
      ρ = .base (Checker.resultType op) := by
  constructor
  · intro h
    cases h <;> simp [Checker.operandType, Checker.resultType]
  · rintro ⟨hτ, rfl⟩
    cases op
    case equal => exact .equal τ
    all_goals
      rw [hτ _ rfl]
      constructor

namespace Checker

variable {s : Session} {S : Scopes NodeId}

/-! ### Operators -/

theorem operation_infers {left right : NodeId} (op : BinaryOp) (p q : Position) (hs : s.Valid)
    (hS : s.scopes = S) (hl : left < s.types.size) (hr : right < s.types.size) :
    Infers S s (fun M ρ => M left = M right ∧ op.Typed (M left) ρ)
      (operation op left right p q s) := by
  have hresult : ∀ s' : Session, s'.Valid → s'.scopes = S →
      Infers S s' (fun _ ρ => ρ = .base (resultType op))
        ((Pure.pure (TypeStore.constant (resultType op)) : Checker NodeId) s') := by
    intro s' hs' hS'
    refine .pure hs' ⟨hS', hs'.constant_lt _⟩ fun M ρ hM => ?_
    rw [hM.constant (hs'.types.constant _)]
  rw [operation]
  cases hop : operandType op with
  | none =>
    refine (unify_requires hs hS hl hr).require (fun M ρ _ => ?_) (fun _ _ _ => rfl)
      fun s' hg hS' _ => hresult s' hg.valid hS'
    rw [BinaryOp.typed_iff, hop]
    simp
  | some t =>
    have hc := hs.constant_lt t
    refine (unify_requires hs hS hc hl).require
      (Q := fun M ρ => .base t = M right ∧ ρ = .base (resultType op)) (fun M ρ hM => ?_)
      (fun M M' hagree => by rw [hagree right hr]) fun s₁ hg₁ hS₁ _ => ?_
    · rw [BinaryOp.typed_iff, hop, hM.constant (hs.types.constant t)]
      simp only [Option.some.injEq, forall_eq']
      constructor
      · rintro ⟨h₁, h₂, h₃⟩
        exact ⟨h₂.symm, h₂ ▸ h₁, h₃⟩
      · rintro ⟨h₁, h₂, h₃⟩
        exact ⟨h₁ ▸ h₂, h₁.symm, h₃⟩
    · refine (unify_requires hg₁.valid hS₁ (hg₁.lt hc) (hg₁.lt hr)).require (fun M ρ hM => ?_)
        (fun _ _ _ => rfl) fun s₂ hg₂ hS₂ _ => hresult s₂ hg₂.valid hS₂
      rw [hM.constant (hg₁.valid.types.constant t)]

/-! ### Calls -/

/-- The callee is known to be a function. -/
theorem known_call_infers {result : NodeId} {params : List NodeId} {arguments : List Expr}
    (hresult : result < s.types.size)
    (hcheck : Requires S s (fun M => ArgumentsTyped (S.context M) arguments (params.map M))
      (checkArguments params arguments s)) :
    Infers S s (fun M ρ => ∃ τs, .fn (params.map M) (M result) = GroundTy.fn τs ρ ∧
        ArgumentsTyped (S.context M) arguments τs)
      ((do checkArguments params arguments; return result : Checker NodeId) s) := by
  refine hcheck.require (Q := fun M ρ => ρ = M result) (fun M ρ _ => ?_)
    (fun M M' hagree => by rw [hagree result hresult]) fun s' hg hS' _ => ?_
  · constructor
    · rintro ⟨τs, h, ha⟩
      cases h
      exact ⟨ha, rfl⟩
    · rintro ⟨ha, rfl⟩
      exact ⟨_, rfl, ha⟩
  · exact .pure hg.valid ⟨hS', hg.lt hresult⟩ fun M ρ _ => Iff.rfl

/-- Nothing is known of the callee: the arguments say what it takes. -/
theorem unknown_call_infers {type : NodeId} {arguments : List Expr} {position : Position}
    (htype : type < s.types.size)
    (hargs : InfersAll S s (fun M τs => ArgumentsTyped (S.context M) arguments τs)
      (inferArguments arguments s)) :
    Infers S s (fun M ρ => ∃ τs, M type = .fn τs ρ ∧ ArgumentsTyped (S.context M) arguments τs)
      ((do
        let types ← inferArguments arguments
        let result ← onTypes (·.fresh)
        let inferred ← onTypes (·.function result types)
        unify type inferred position
        return result : Checker NodeId) s) := by
  refine hargs.bind (Q := fun M τs ρ => M type = .fn τs ρ) (fun M ρ _ => ?_)
    (fun M M' hagree => by rw [hagree type htype]) ?_
  · exact exists_congr fun τs => and_comm
  rintro types s₁ hg₁ ⟨hS₁, htypes⟩ _
  have htype₁ := hg₁.lt htype
  refine (fresh_infers hg₁.valid hS₁).bind
    (Q := fun M ρ ρ' => M type = .fn (types.map M) ρ ∧ ρ' = ρ) (fun M ρ _ => by simp)
    (fun M M' hagree => by rw [hagree type htype₁, hagree.map htypes]) ?_
  rintro result s₂ hg₂ ⟨hS₂, hresult⟩ _
  have htypes₂ : ∀ j ∈ result :: types, j < s₂.types.size :=
    List.forall_mem_cons.2 ⟨hresult, fun j hj => hg₂.lt (htypes j hj)⟩
  have htype₂ := hg₂.lt htype₁
  refine (function_infers hg₂.valid hS₂ htypes₂).bind
    (Q := fun M τ ρ => M type = τ ∧ ρ = M result) (fun M ρ _ => by simp)
    (fun M M' hagree => by rw [hagree type htype₂, hagree result hresult]) ?_
  rintro inferred s₃ hg₃ ⟨hS₃, hinferred⟩ _
  refine (unify_requires hg₃.valid hS₃ (hg₃.lt htype₂) hinferred).require
    (Q := fun M ρ => ρ = M result) (fun M ρ _ => Iff.rfl)
    (fun M M' hagree => by rw [hagree result (hg₃.lt hresult)]) fun s₄ hg₄ hS₄ _ => ?_
  exact .pure hg₄.valid ⟨hS₄, hg₄.lt (hg₃.lt hresult)⟩ fun M ρ _ => Iff.rfl

theorem call_infers {span : Span} {callee : String} {arguments : List Expr} (hs : s.Valid)
    (hS : s.scopes = S)
    (hcheck : ∀ {s : Session} {params : List NodeId}, s.Valid → s.scopes = S →
      params.length = arguments.length → (∀ p ∈ params, p < s.types.size) →
      Requires S s (fun M => ArgumentsTyped (S.context M) arguments (params.map M))
        (checkArguments params arguments s))
    (hargs : ∀ {s : Session}, s.Valid → s.scopes = S →
      InfersAll S s (fun M τs => ArgumentsTyped (S.context M) arguments τs)
        (inferArguments arguments s)) :
    Infers S s (fun M ρ => ExprTyped (S.context M) (.call span callee arguments) ρ)
      (expr (.call span callee arguments) s) := by
  rw [expr]
  refine (lookup_infers hs hS callee).bind
    (Q := fun M τ ρ => ∃ τs, τ = .fn τs ρ ∧ ArgumentsTyped (S.context M) arguments τs)
    (fun M ρ _ => exprTyped_call_iff)
    (fun M M' hagree => by rw [hs.context_congr hS hagree]) ?_
  rintro type s₁ hg₁ ⟨hS₁, htype⟩ _
  refine (representative_decides hg₁.valid hS₁ htype).bind
    (Q := fun M _ ρ => ∃ τs, M type = .fn τs ρ ∧ ArgumentsTyped (S.context M) arguments τs)
    (fun M ρ _ => by simp)
    (fun M M' hagree => by rw [hg₁.valid.context_congr hS₁ hagree, hagree type htype]) ?_
  rintro ⟨root, node⟩ s₂ hg₂ hrep _
  have hs₂ := hg₂.valid
  rcases node with t | ⟨id, _ | j⟩ | ⟨result, params⟩
  · -- no valuation makes a function of a constant
    refine .quiet (show display root s₂ = .ok _ s₂ from rfl) rfl rfl rfl ?_
    refine .reject hs₂ fun M ρ hM h => ?_
    obtain ⟨τs, hfn, -⟩ := h
    rw [← hrep.same M hM, hM.constant hrep.node] at hfn
    cases hfn
  · exact unknown_call_infers (hg₂.lt htype) (hargs hs₂ hrep.scopes)
  · -- a representative is not bound
    exact absurd hrep.node (hrep.root id j)
  · -- the type of the callee is fixed, and the arguments are checked against it
    have hfn : ∀ M, s₂.types.Admits M → M type = .fn (params.map M) (M result) := fun M hM => by
      rw [← hrep.same M hM, hM.function hrep.node]
    have hlt : ∀ j ∈ result :: params, j < s₂.types.size :=
      fun j hj => hs₂.types.lt_of_mem_links hrep.node hj
    dsimp only
    by_cases hlen : params.length = arguments.length
    · rw [if_pos hlen]
      have hparams : ∀ p ∈ params, p < s₂.types.size := fun p hp => hlt p (by simp [hp])
      refine (known_call_infers (hlt result (by simp))
        (hcheck hs₂ hrep.scopes hlen hparams)).congr fun M ρ hM => ?_
      rw [hfn M hM]
    · rw [if_neg hlen]
      refine .reject hs₂ fun M ρ hM h => hlen ?_
      obtain ⟨τs, hτs, ha⟩ := h
      rw [hfn M hM] at hτs
      cases hτs
      rw [← ha.length_eq, List.length_map]

/-! ### Expressions -/

mutual

/-- **Checking an expression infers its type.** -/
theorem expr_infers : ∀ (e : Expr) {s : Session}, s.Valid → s.scopes = S →
    Infers S s (fun M τ => ExprTyped (S.context M) e τ) (expr e s)
  | .name span x, s, hs, hS => by
    rw [expr]
    exact (lookup_infers hs hS x).congr fun M τ _ => exprTyped_name_iff
  | .int _ _, s, hs, hS => by
    rw [expr]
    refine .pure hs ⟨hS, hs.constant_lt _⟩ fun M τ hM => ?_
    rw [exprTyped_int_iff, hM.constant (hs.types.constant _)]
  | .bool _ _, s, hs, hS => by
    rw [expr]
    refine .pure hs ⟨hS, hs.constant_lt _⟩ fun M τ hM => ?_
    rw [exprTyped_bool_iff, hM.constant (hs.types.constant _)]
  | .binary _ left op right, s, hs, hS => by
    rw [expr]
    refine (expr_infers left hs hS).bind
      (Q := fun M τ ρ => ExprTyped (S.context M) right τ ∧ op.Typed τ ρ)
      (fun M ρ _ => exprTyped_binary_iff)
      (fun M M' hagree => by rw [hs.context_congr hS hagree]) ?_
    rintro l s₁ hg₁ ⟨hS₁, hl⟩ _
    refine (expr_infers right hg₁.valid hS₁).bind
      (Q := fun M τ ρ => M l = τ ∧ op.Typed (M l) ρ) (fun M ρ _ => ?_)
      (fun M M' hagree => by rw [hagree l hl]) ?_
    · constructor
      · rintro ⟨hr, hop⟩
        exact ⟨M l, hr, rfl, hop⟩
      · rintro ⟨τ, hr, rfl, hop⟩
        exact ⟨hr, hop⟩
    · rintro r s₂ hg₂ ⟨hS₂, hr⟩ _
      exact operation_infers op _ _ hg₂.valid hS₂ (hg₂.lt hl) hr
  | .call _ _ arguments, s, hs, hS =>
    call_infers hs hS (checkArguments_requires arguments) (inferArguments_infers arguments)

/-- Checking arguments requires them to have the types of the parameters. -/
theorem checkArguments_requires : ∀ (arguments : List Expr) {s : Session} {params : List NodeId},
    s.Valid → s.scopes = S → params.length = arguments.length →
    (∀ p ∈ params, p < s.types.size) →
    Requires S s (fun M => ArgumentsTyped (S.context M) arguments (params.map M))
      (checkArguments params arguments s)
  | [], s, [], hs, hS, _, _ => by
    simp only [checkArguments]
    exact .pure hs hS fun M _ _ => iff_of_true .nil rfl
  | e :: es, s, p :: ps, hs, hS, hlen, hp => by
    rw [checkArguments]
    have hps : ∀ q ∈ ps, q < s.types.size := fun q hq => hp q (List.mem_cons_of_mem _ hq)
    have hp := hp p List.mem_cons_self
    refine (expr_infers e hs hS).bind
      (Q := fun M τ _ => M p = τ ∧ ArgumentsTyped (S.context M) es (ps.map M)) (fun M _ _ => ?_)
      (fun M M' hagree => by
        rw [hs.context_congr hS hagree, hagree p hp, hagree.map hps]) ?_
    · constructor
      · intro h
        cases h with
        | cons he hes => exact ⟨M p, he, rfl, hes⟩
      · rintro ⟨τ, he, rfl, hes⟩
        exact .cons he hes
    · rintro i s₁ hg₁ ⟨hS₁, hi⟩ _
      refine (unify_requires hg₁.valid hS₁ (hg₁.lt hp) hi).require
        (Q := fun M _ => ArgumentsTyped (S.context M) es (ps.map M)) (fun M _ _ => Iff.rfl)
        (fun M M' hagree => by
          rw [hg₁.valid.context_congr hS₁ hagree, hagree.map fun q hq => hg₁.lt (hps q hq)])
        fun s₂ hg₂ hS₂ _ => ?_
      exact checkArguments_requires es hg₂.valid hS₂ (Nat.succ.inj hlen)
        fun q hq => hg₂.lt (hg₁.lt (hps q hq))

/-- The types of arguments are inferred in order. -/
theorem inferArguments_infers : ∀ (arguments : List Expr) {s : Session}, s.Valid → s.scopes = S →
    InfersAll S s (fun M τs => ArgumentsTyped (S.context M) arguments τs)
      (inferArguments arguments s)
  | [], s, hs, hS => by
    rw [inferArguments]
    refine .pure hs ⟨hS, by simp⟩ fun M τs _ => ?_
    rw [argumentsTyped_nil_iff, List.map_nil]
  | e :: es, s, hs, hS => by
    rw [inferArguments]
    refine ((expr_infers e hs hS).cons
      (Q := fun M τs => ArgumentsTyped (S.context M) es τs)
      (fun M M' hagree => by rw [hs.context_congr hS hagree])
      fun s₁ hg₁ hS₁ => inferArguments_infers es hg₁.valid hS₁).congr fun M τs _ => ?_
    exact argumentsTyped_cons_iff

end

end Checker

end SimpleLang
