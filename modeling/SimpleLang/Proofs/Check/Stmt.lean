import SimpleLang.Proofs.Check.Expr
import SimpleLang.Proofs.Check.Nodes

/-!
# Inference for declarations and statements

Checking a statement decides which types its declarations can have, together with what is in
force after it (`Checker.stmtNodes_declares`).
-/

namespace SimpleLang

variable {Γ : Context} {ret : Option GroundTy}

/-! ### The rules, read backwards

What a statement gives is one thing here, the types of its declarations with the context after
it. -/

theorem declTyped_iff {d : Decl} {b : GroundTy × Context} :
    DeclTyped Γ d b.1 b.2 ↔ ∃ τ, d.Allows τ ∧ ∃ Γ', Γ.Adds d.name τ Γ' ∧ b = (τ, Γ') := by
  obtain ⟨τ, Γ'⟩ := b
  dsimp only
  constructor
  · intro h
    cases h with
    | declare hnone hallows => exact ⟨τ, hallows, _, ⟨_, _, rfl, hnone, rfl⟩, rfl⟩
  · rintro ⟨_, hallows, _, ⟨F, Γ₀, rfl, hnone, rfl⟩, h⟩
    cases h
    exact .declare hnone hallows

theorem declsTyped_nil_iff {b : List GroundTy × Context} :
    DeclsTyped Γ [] b.1 b.2 ↔ b = ([], Γ) := by
  obtain ⟨τs, Γ'⟩ := b
  constructor
  · intro h
    cases h
    rfl
  · intro h
    cases h
    exact .nil

theorem declsTyped_cons_iff {d : Decl} {ds : List Decl} {b : List GroundTy × Context} :
    DeclsTyped Γ (d :: ds) b.1 b.2 ↔ ∃ b₁ : GroundTy × Context, DeclTyped Γ d b₁.1 b₁.2 ∧
      ∃ b₂ : List GroundTy × Context, DeclsTyped b₁.2 ds b₂.1 b₂.2 ∧ b = (b₁.1 :: b₂.1, b₂.2) := by
  obtain ⟨τs, Γ'⟩ := b
  constructor
  · intro h
    cases h with
    | cons hd hds => exact ⟨⟨_, _⟩, hd, ⟨_, _⟩, hds, rfl⟩
  · rintro ⟨⟨τ, Γ₁⟩, hd, ⟨τs', Γ₂⟩, hds, h⟩
    cases h
    exact .cons hd hds

theorem stmtTyped_decl_iff {span : Span} {d : Decl} {b : List GroundTy × Context} :
    StmtTyped ret Γ (.decl span d) b.1 b.2 ↔
      ∃ b₁ : GroundTy × Context, DeclTyped Γ d b₁.1 b₁.2 ∧ b = ([b₁.1], b₁.2) := by
  obtain ⟨τs, Γ'⟩ := b
  constructor
  · intro h
    cases h with
    | decl hd => exact ⟨⟨_, _⟩, hd, rfl⟩
  · rintro ⟨⟨τ, Γ₁⟩, hd, h⟩
    cases h
    exact .decl hd

theorem stmtTyped_block_iff {span : Span} {ds : List Decl} {ss : List Stmt}
    {b : List GroundTy × Context} :
    StmtTyped ret Γ (.block span ds ss) b.1 b.2 ↔
      (∃ Γ₂, ∃ b₁ : List GroundTy × Context, DeclsTyped (Frame.empty :: Γ) ds b₁.1 b₁.2 ∧
        ∃ b₂ : List GroundTy × Context, StmtsTyped ret b₁.2 ss b₂.1 b₂.2 ∧
          (b.1, Γ₂) = (b₁.1 ++ b₂.1, b₂.2)) ∧ b.2 = Γ := by
  obtain ⟨τs, Γ'⟩ := b
  constructor
  · intro h
    cases h with
    | block hds hss => exact ⟨⟨_, ⟨_, _⟩, hds, ⟨_, _⟩, hss, rfl⟩, rfl⟩
  · rintro ⟨⟨_, ⟨_, _⟩, hds, ⟨_, _⟩, hss, h⟩, rfl⟩
    cases h
    exact .block hds hss

theorem stmtTyped_assign_iff {span : Span} {target : String} {value : Expr}
    {b : List GroundTy × Context} :
    StmtTyped ret Γ (.assign span target value) b.1 b.2 ↔
      ∃ τ, Γ.Resolves target τ ∧ ExprTyped Γ value τ ∧ b = ([], Γ) := by
  obtain ⟨τs, Γ'⟩ := b
  constructor
  · intro h
    cases h with
    | assign hx hv => exact ⟨_, hx, hv, rfl⟩
  · rintro ⟨τ, hx, hv, h⟩
    cases h
    exact .assign hx hv

theorem stmtTyped_ifThen_iff {span : Span} {c : Expr} {t : Stmt} {b : List GroundTy × Context} :
    StmtTyped ret Γ (.ifThen span c t) b.1 b.2 ↔
      ExprTyped Γ c (.base .bool) ∧ StmtTyped ret Γ t b.1 b.2 := by
  constructor
  · intro h
    cases h with
    | ifThen hc ht => exact ⟨hc, ht⟩
  · rintro ⟨hc, ht⟩
    exact .ifThen hc ht

theorem stmtTyped_ifElse_iff {span : Span} {c : Expr} {t e : Stmt}
    {b : List GroundTy × Context} :
    StmtTyped ret Γ (.ifElse span c t e) b.1 b.2 ↔ ExprTyped Γ c (.base .bool) ∧
      ∃ b₁ : List GroundTy × Context, StmtTyped ret Γ t b₁.1 b₁.2 ∧
        ∃ b₂ : List GroundTy × Context, StmtTyped ret b₁.2 e b₂.1 b₂.2 ∧
          b = (b₁.1 ++ b₂.1, b₂.2) := by
  obtain ⟨τs, Γ'⟩ := b
  constructor
  · intro h
    cases h with
    | ifElse hc ht he => exact ⟨hc, ⟨_, _⟩, ht, ⟨_, _⟩, he, rfl⟩
  · rintro ⟨hc, ⟨_, _⟩, ht, ⟨_, _⟩, he, h⟩
    cases h
    exact .ifElse hc ht he

theorem stmtTyped_while_iff {span : Span} {c : Expr} {body : Stmt}
    {b : List GroundTy × Context} :
    StmtTyped ret Γ (.while span c body) b.1 b.2 ↔
      ExprTyped Γ c (.base .bool) ∧ StmtTyped ret Γ body b.1 b.2 := by
  constructor
  · intro h
    cases h with
    | «while» hc hb => exact ⟨hc, hb⟩
  · rintro ⟨hc, hb⟩
    exact .while hc hb

theorem stmtTyped_return_iff {span : Span} {value : Expr} {b : List GroundTy × Context} :
    StmtTyped ret Γ (.return span value) b.1 b.2 ↔
      ∃ ρ, ret = some ρ ∧ ExprTyped Γ value ρ ∧ b = ([], Γ) := by
  obtain ⟨τs, Γ'⟩ := b
  constructor
  · intro h
    cases h with
    | «return» hr hv => exact ⟨_, hr, hv, rfl⟩
  · rintro ⟨ρ, hr, hv, h⟩
    cases h
    exact .return hr hv

theorem stmtsTyped_nil_iff {b : List GroundTy × Context} :
    StmtsTyped ret Γ [] b.1 b.2 ↔ b = ([], Γ) := by
  obtain ⟨τs, Γ'⟩ := b
  constructor
  · intro h
    cases h
    rfl
  · intro h
    cases h
    exact .nil

theorem stmtsTyped_cons_iff {st : Stmt} {ss : List Stmt} {b : List GroundTy × Context} :
    StmtsTyped ret Γ (st :: ss) b.1 b.2 ↔
      ∃ b₁ : List GroundTy × Context, StmtTyped ret Γ st b₁.1 b₁.2 ∧
        ∃ b₂ : List GroundTy × Context, StmtsTyped ret b₁.2 ss b₂.1 b₂.2 ∧
          b = (b₁.1 ++ b₂.1, b₂.2) := by
  obtain ⟨τs, Γ'⟩ := b
  constructor
  · intro h
    cases h with
    | cons hs hss => exact ⟨⟨_, _⟩, hs, ⟨_, _⟩, hss, rfl⟩
  · rintro ⟨⟨_, _⟩, hs, ⟨_, _⟩, hss, h⟩
    cases h
    exact .cons hs hss

namespace Checker

variable {s : Session} {S : Scopes NodeId}

/-! ### Declarations -/

theorem declaration_decides (d : Decl) (hs : s.Valid) (hS : s.scopes = S) :
    Decides s (fun M b => DeclTyped (S.context M) d b.1 b.2) (fun i s' => i < s'.types.size)
      (fun i s' M => (M i, s'.scopes.context M)) (declaration d s) := by
  refine (declared_infers hs hS d.type).bind
    (Q := fun M τ b => ∃ Γ, (S.context M).Adds d.name τ Γ ∧ b = (τ, Γ))
    (fun M b _ => declTyped_iff) (fun M M' hagree => by rw [hs.context_congr hS hagree]) ?_
  rintro i s₁ hg₁ ⟨hS₁, hi⟩ _
  exact (declare_decides hg₁.valid hS₁ hi d.name).map (h := fun M Γ => (M i, Γ))
    (fun M b _ => Iff.rfl) (fun M M' hagree => by rw [hagree i hi])
    (fun _ s₂ hg₂ _ => hg₂.lt hi) fun _ _ _ => rfl

theorem declarationNodes_declares : ∀ (ds : List Decl) {s : Session} {S : Scopes NodeId},
    s.Valid → s.scopes = S →
    Declares s (fun M b => DeclsTyped (S.context M) ds b.1 b.2) (declarationNodes ds s) := by
  intro ds
  induction ds with
  | nil =>
    rintro s _ hs rfl
    exact .pure hs (by simp) fun M b _ => declsTyped_nil_iff
  | cons d ds ih =>
    intro s S hs hS
    refine (declaration_decides d hs hS).bind
      (Q := fun _ b₁ b => ∃ b₂ : List GroundTy × Context, DeclsTyped b₁.2 ds b₂.1 b₂.2 ∧
        b = (b₁.1 :: b₂.1, b₂.2))
      (fun M b _ => declsTyped_cons_iff) (fun _ _ _ => rfl) ?_
    intro i s₁ hg₁ hi _
    refine (ih hg₁.valid rfl).map (h := fun M b₂ => (M i :: b₂.1, b₂.2)) (fun M b _ => Iff.rfl)
      (fun M M' hagree => by rw [hagree i hi]) (fun is s₂ hg₂ his => ?_) fun _ _ _ => rfl
    exact List.forall_mem_cons.2 ⟨hg₂.lt hi, his⟩

/-! ### Parts of statements -/

theorem condition_requires (c : Expr) (hs : s.Valid) (hS : s.scopes = S) :
    Requires S s (fun M => ExprTyped (S.context M) c (.base .bool)) (condition c s) := by
  refine (expr_infers c hs hS).bind (Q := fun _ τ _ => .base .bool = τ) (fun M _ _ => by simp)
    (fun _ _ _ => rfl) ?_
  rintro i s₁ hg₁ ⟨hS₁, hi⟩ _
  refine (unify_requires hg₁.valid hS₁ (hg₁.valid.constant_lt .bool) hi).congr fun M _ hM => ?_
  dsimp only
  rw [hM.constant (hg₁.valid.types.constant .bool)]

/-- A value of a type that is known. -/
theorem value_declares {a : NodeId} {position : Position} (value : Expr) (hs : s.Valid)
    (hS : s.scopes = S) (ha : a < s.types.size) :
    Declares s (fun M b => ExprTyped (S.context M) value (M a) ∧ b = ([], S.context M))
      ((do
        let type ← expr value
        unify a type position
        return [] : Checker (List NodeId)) s) := by
  refine (expr_infers value hs hS).bind (Q := fun M τ b => M a = τ ∧ b = ([], S.context M))
    (fun M b _ => by simp)
    (fun M M' hagree => by rw [hs.context_congr hS hagree, hagree a ha]) ?_
  rintro i s₁ hg₁ ⟨hS₁, hi⟩ _
  refine (unify_requires hg₁.valid hS₁ (hg₁.lt ha) hi).require
    (Q := fun M b => b = ([], S.context M)) (fun M b _ => Iff.rfl)
    (fun M M' hagree => by rw [hg₁.valid.context_congr hS₁ hagree]) ?_
  rintro s₂ hg₂ rfl _
  exact .pure hg₂.valid (by simp) fun M b _ => Iff.rfl

/-- Declarations of one part follow those of another. -/
theorem append_declares {P : Valuation → List GroundTy × Context → Prop}
    {Q : Valuation → Context → List GroundTy × Context → Prop} {x y : Checker (List NodeId)}
    (hx : Declares s P (x s)) (hQ : ∀ M M', s.Agree M M' → Q M' = Q M)
    (hy : ∀ s', s.Grows s' → Declares s' (fun M b => Q M (s'.scopes.context M) b) (y s')) :
    Declares s (fun M b => ∃ b₁, P M b₁ ∧ ∃ b₂, Q M b₁.2 b₂ ∧ b = (b₁.1 ++ b₂.1, b₂.2))
      ((do
        let is ← x
        return is ++ (← y) : Checker (List NodeId)) s) := by
  refine hx.bind (Q := fun M b₁ b => ∃ b₂, Q M b₁.2 b₂ ∧ b = (b₁.1 ++ b₂.1, b₂.2))
    (fun M b _ => Iff.rfl) (fun M M' hagree => by rw [hQ M M' hagree]) ?_
  intro is s₁ hg₁ his _
  refine (hy s₁ hg₁).map (h := fun M b₂ => (is.map M ++ b₂.1, b₂.2)) (fun M b _ => Iff.rfl)
    (fun M M' hagree => by rw [hagree.map his]) (fun js s₂ hg₂ hjs => ?_) fun js _ M => ?_
  · exact List.forall_mem_append.2 ⟨fun j hj => hg₂.lt (his j hj), hjs⟩
  · rw [List.map_append]

/-! ### Statements -/

mutual

/-- **Checking a statement decides the types of its declarations.** -/
theorem stmtNodes_declares : ∀ (st : Stmt) {s : Session} {S : Scopes NodeId}
    {ret : Option NodeId}, s.Valid → s.scopes = S → s.returnType = ret →
    Declares s (fun M b => StmtTyped (ret.map M) (S.context M) st b.1 b.2) (stmtNodes st s)
  | .decl _ d, s, S, ret, hs, hS, _ => by
    rw [stmtNodes]
    exact (declaration_decides d hs hS).map (h := fun _ b => ([b.1], b.2))
      (fun M b _ => stmtTyped_decl_iff) (fun _ _ _ => rfl)
      (fun i s' _ hi => by simpa using hi) fun _ _ _ => rfl
  | .block _ ds ss, s, S, ret, hs, hS, hr => by
    rw [stmtNodes]
    subst hS
    -- the context after the body is forgotten, and the one before the block is in force again
    have hbody := withScope_decides (I := fun is types => ∀ i ∈ is, i < types.size) hs
      fun s₁ hs₁ _ hS₁ hr₁ =>
        (append_declares (Q := fun M Γ b => StmtsTyped (ret.map M) Γ ss b.1 b.2)
          (declarationNodes_declares ds hs₁ hS₁)
          (fun M M' hagree => by rw [hs₁.returnType_congr (hr₁.trans hr) hagree])
          fun s₂ hg₂ => stmtsNodes_declares ss hg₂.valid rfl
            (hg₂.returnType.trans (hr₁.trans hr))).forgetContext
    refine ((hbody.keepContext hs fun _ _ h => h.1).imp fun _ _ h => h.2).congr fun M b _ => ?_
    exact stmtTyped_block_iff
  | .assign span target value, s, S, ret, hs, hS, _ => by
    rw [stmtNodes]
    refine (lookup_infers hs hS target).bind
      (Q := fun M τ b => ExprTyped (S.context M) value τ ∧ b = ([], S.context M))
      (fun M b _ => stmtTyped_assign_iff)
      (fun M M' hagree => by rw [hs.context_congr hS hagree]) ?_
    rintro a s₁ hg₁ ⟨hS₁, ha⟩ _
    exact value_declares value hg₁.valid hS₁ ha
  | .ifThen _ c t, s, S, ret, hs, hS, hr => by
    rw [stmtNodes]
    refine (condition_requires c hs hS).require (fun M b _ => stmtTyped_ifThen_iff)
      (fun M M' hagree => by rw [hs.context_congr hS hagree, hs.returnType_congr hr hagree])
      fun s₁ hg₁ hS₁ _ => ?_
    exact stmtNodes_declares t hg₁.valid hS₁ (hg₁.returnType.trans hr)
  | .ifElse _ c t e, s, S, ret, hs, hS, hr => by
    rw [stmtNodes]
    refine (condition_requires c hs hS).require (fun M b _ => stmtTyped_ifElse_iff)
      (fun M M' hagree => by rw [hs.context_congr hS hagree, hs.returnType_congr hr hagree])
      fun s₁ hg₁ hS₁ _ => ?_
    have hr₁ := hg₁.returnType.trans hr
    exact append_declares (Q := fun M Γ b => StmtTyped (ret.map M) Γ e b.1 b.2)
      (stmtNodes_declares t hg₁.valid hS₁ hr₁)
      (fun M M' hagree => by rw [hg₁.valid.returnType_congr hr₁ hagree])
      fun s₂ hg₂ => stmtNodes_declares e hg₂.valid rfl (hg₂.returnType.trans hr₁)
  | .while _ c body, s, S, ret, hs, hS, hr => by
    rw [stmtNodes]
    refine (condition_requires c hs hS).require (fun M b _ => stmtTyped_while_iff)
      (fun M M' hagree => by rw [hs.context_congr hS hagree, hs.returnType_congr hr hagree])
      fun s₁ hg₁ hS₁ _ => ?_
    exact stmtNodes_declares body hg₁.valid hS₁ (hg₁.returnType.trans hr)
  | .return span value, s, S, ret, hs, hS, hr => by
    rw [stmtNodes]
    refine .quiet (show (get : Checker Session) s = .ok s s from rfl) rfl rfl rfl ?_
    rw [hr]
    cases ret with
    | none =>
      refine .reject hs fun M b _ h => ?_
      obtain ⟨ρ, hρ, -⟩ := stmtTyped_return_iff.1 h
      cases hρ
    | some a =>
      refine (value_declares value hs hS (hs.returnType a hr)).congr fun M b _ => ?_
      rw [stmtTyped_return_iff]
      simp

/-- Statements are checked in order. -/
theorem stmtsNodes_declares : ∀ (ss : List Stmt) {s : Session} {S : Scopes NodeId}
    {ret : Option NodeId}, s.Valid → s.scopes = S → s.returnType = ret →
    Declares s (fun M b => StmtsTyped (ret.map M) (S.context M) ss b.1 b.2) (stmtsNodes ss s)
  | [], s, S, ret, hs, hS, _ => by
    subst hS
    rw [stmtsNodes]
    exact .pure hs (by simp) fun M b _ => stmtsTyped_nil_iff
  | st :: ss, s, S, ret, hs, hS, hr => by
    rw [stmtsNodes]
    refine (append_declares (Q := fun M Γ b => StmtsTyped (ret.map M) Γ ss b.1 b.2)
      (stmtNodes_declares st hs hS hr)
      (fun M M' hagree => by rw [hs.returnType_congr hr hagree])
      fun s₁ hg₁ => stmtsNodes_declares ss hg₁.valid rfl (hg₁.returnType.trans hr)).congr ?_
    exact fun M b _ => stmtsTyped_cons_iff

end

end Checker

end SimpleLang
