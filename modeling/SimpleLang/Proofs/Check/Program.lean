import SimpleLang.Proofs.Check.Stmt

/-!
# Inference for programs

A program is checked in two rounds.  First every function is declared with a type of its own; the
typing rules for this round are `Signed`.  Then the bodies are checked against the types that the
names have got.  Together the two rounds decide the rules for programs
(`Checker.itemNodes_decides`).
-/

namespace SimpleLang

variable {F F' : Frame} {Γ Γ' Γ₀ : Context}

/-! ### Signatures -/

/-- Functions are declared, with the types written where there are any. -/
def Signed : Context → List FuncDef → Context → Prop
  | Γ, [], Γ' => Γ' = Γ
  | Γ, f :: fs, Γ' => ∃ Γ₁, (∃ τs, List.Forall₂ Decl.Allows f.params τs ∧
      ∃ ρ, Γ.Adds f.name (.fn τs ρ) Γ₁) ∧ Signed Γ₁ fs Γ'

/-- The types of the parameters are those written, where there are any. -/
def ParamsAllow (f : FuncDef) (t : FuncTypes GroundTy) : Prop :=
  List.Forall₂ Decl.Allows f.params t.params

theorem signed_iff {fs : List FuncDef} : Signed (F :: Γ₀) fs Γ' ↔
    ∃ F' ts, FuncsDeclared F fs ts F' ∧ List.Forall₂ ParamsAllow fs ts ∧ Γ' = F' :: Γ₀ := by
  induction fs generalizing F with
  | nil =>
    constructor
    · rintro rfl
      exact ⟨F, [], .nil, .nil, rfl⟩
    · rintro ⟨F', ts, hd, -, rfl⟩
      cases hd
      rfl
  | cons f fs ih =>
    constructor
    · rintro ⟨Γ₁, ⟨τs, hallow, ρ, F₀, Γ₁', heq, hnone, rfl⟩, hrest⟩
      cases heq
      obtain ⟨F', ts, hd, hallows, rfl⟩ := ih.1 hrest
      -- the types of the locals do not matter here
      exact ⟨F', ⟨τs, ρ, []⟩ :: ts, .cons hnone hd, .cons hallow hallows, rfl⟩
    · rintro ⟨F', _, hd, hallows, rfl⟩
      cases hd with
      | cons hnone hd =>
        cases hallows with
        | cons hallow hallows =>
          exact ⟨_, ⟨_, hallow, _, F, Γ₀, rfl, hnone, rfl⟩, ih.2 ⟨F', _, hd, hallows, rfl⟩⟩

namespace FuncsDeclared

variable {fs : List FuncDef} {ts ts' : List (FuncTypes GroundTy)}

/-- Later declarations leave the earlier ones in force. -/
theorem keeps (h : FuncsDeclared F fs ts F') {x : String} {τ : GroundTy} (hx : F x = some τ) :
    F' x = some τ := by
  induction h with
  | nil => exact hx
  | @cons F F' f fs t ts hnone _ ih =>
    apply ih
    have hne : x ≠ f.name := by
      rintro rfl
      rw [hnone] at hx
      cases hx
    rw [Frame.add, if_neg hne, hx]

/-- Each function has its type in the end, besides what else is known of it. -/
theorem type_eq {R : FuncDef → FuncTypes GroundTy → Prop} (h : FuncsDeclared F fs ts F')
    (hR : List.Forall₂ R fs ts) :
    List.Forall₂ (fun f t => F' f.name = some t.type ∧ R f t) fs ts := by
  induction h with
  | nil => exact .nil
  | @cons F F' f fs t ts _ hd ih =>
    cases hR with
    | cons hf hfs => exact .cons ⟨hd.keeps (by rw [Frame.add, if_pos rfl]), hf⟩ (ih hfs)

/-- Only the types of the functions themselves matter. -/
theorem congr (h : FuncsDeclared F fs ts F')
    (hts : List.Forall₂ (fun f t => F' f.name = some t.type) fs ts') :
    FuncsDeclared F fs ts' F' := by
  induction h generalizing ts' with
  | nil => cases hts; exact .nil
  | @cons F F' f fs t ts hnone hd ih =>
    cases hts with
    | @cons _ t' _ ts' ht hts =>
      have heq : t.type = t'.type := by
        rw [hd.keeps (by rw [Frame.add, if_pos rfl])] at ht
        exact Option.some.inj ht
      exact .cons hnone (heq ▸ ih hts)

end FuncsDeclared

theorem DeclsTyped.allows {ds : List Decl} {τs : List GroundTy} (h : DeclsTyped Γ ds τs Γ') :
    List.Forall₂ Decl.Allows ds τs := by
  induction h with
  | nil => exact .nil
  | cons hd _ ih =>
    cases hd with
    | declare _ hallows => exact .cons hallows ih

theorem resolves_singleton_iff {x : String} {τ : GroundTy} :
    Context.Resolves [F] x τ ↔ F x = some τ := by
  constructor
  · intro h
    cases h with
    | here h => exact h
    | outer _ h => cases h
  · exact .here

/-- The rule for a function whose type is known. -/
theorem funcTyped_iff {f : FuncDef} {t : FuncTypes GroundTy} {τs : List GroundTy} {ρ : GroundTy} :
    (GroundTy.fn τs ρ = t.type ∧ FuncTyped F f t) ↔
      ∃ Γ' Γ, DeclsTyped [Frame.empty, F] f.params τs Γ ∧
        ∃ b : List GroundTy × Context, StmtTyped (some ρ) Γ f.body b.1 b.2 ∧
          (t, Γ') = (⟨τs, ρ, b.1⟩, b.2) := by
  constructor
  · rintro ⟨htype, hparams, hbody⟩
    cases htype
    exact ⟨_, _, hparams, ⟨_, _⟩, hbody, rfl⟩
  · rintro ⟨_, _, hparams, ⟨_, _⟩, hbody, h⟩
    cases h
    exact ⟨rfl, hparams, hbody⟩

/-- The rules for programs, in the order of the rounds. -/
theorem programTyped_iff {p : Program} {b : ProgramTypes GroundTy × Context} :
    ProgramTyped p b.1 b.2 ↔ ∃ Γ, Signed [Frame.empty] p.functions Γ ∧
      ∃ F, Γ = [F] ∧ ∃ ts, List.Forall₂ (fun f t => F f.name = some t.type ∧ FuncTyped F f t)
        p.functions ts ∧
        ∃ b₁ : List GroundTy × Context, DeclsTyped Γ p.globals b₁.1 b₁.2 ∧
          ∃ b₂ : List GroundTy × Context, StmtsTyped none b₁.2 p.main b₂.1 b₂.2 ∧
            b = (⟨ts, b₁.1, b₂.1⟩, b₂.2) := by
  obtain ⟨⟨ts, globals, main⟩, Γ'⟩ := b
  simp only [signed_iff]
  constructor
  · rintro ⟨hd, hbodies, hglobals, hmain⟩
    have hallows : List.Forall₂ ParamsAllow p.functions ts := hbodies.imp fun f t hbody => by
      obtain ⟨hparams, -⟩ := hbody
      exact hparams.allows
    exact ⟨_, ⟨_, ts, hd, hallows, rfl⟩, _, rfl, ts, hd.type_eq hbodies,
      ⟨_, _⟩, hglobals, ⟨_, _⟩, hmain, rfl⟩
  · rintro ⟨Γ, ⟨F, ts₀, hd, -, rfl⟩, _, heq, ts', hts, ⟨_, _⟩, hglobals, ⟨_, _⟩, hmain, h⟩
    cases heq
    cases h
    exact ⟨hd.congr (hts.imp fun _ _ h => h.1), hts.imp fun _ _ h => h.2, hglobals, hmain⟩

namespace FuncTypes

/-- All nodes of a function are there. -/
def Within (t : FuncTypes NodeId) (types : TypeStore) : Prop :=
  ∀ i ∈ t.result :: (t.params ++ t.locals), i < types.size

theorem Within.map_eq {t : FuncTypes NodeId} {s : Session} {M M' : Valuation}
    (h : t.Within s.types) (hagree : s.Agree M M') : t.map M' = t.map M := by
  have hparams : t.params.map M' = t.params.map M := hagree.map fun i hi => h i (by simp [hi])
  have hlocals : t.locals.map M' = t.locals.map M := hagree.map fun i hi => h i (by simp [hi])
  rw [map, map, hagree t.result (h t.result (by simp)), hparams, hlocals]

end FuncTypes

namespace Checker

variable {α β : Type} {s : Session} {S : Scopes NodeId}

/-! ### Declaring functions -/

theorem parameterTypes_infers : ∀ (ps : List Decl) {s : Session}, s.Valid → s.scopes = S →
    InfersAll S s (fun _ τs => List.Forall₂ Decl.Allows ps τs) (parameterTypes ps s) := by
  intro ps
  induction ps with
  | nil =>
    intro s hs hS
    refine .pure hs ⟨hS, by simp⟩ fun M τs _ => ?_
    rw [List.forall₂_nil_left_iff, List.map_nil]
  | cons p ps ih =>
    intro s hs hS
    refine ((declared_infers hs hS p.type).cons
      (Q := fun _ τs => List.Forall₂ Decl.Allows ps τs) (fun _ _ _ => rfl)
      fun s₁ hg₁ hS₁ => ih hg₁.valid hS₁).congr fun M τs _ => ?_
    rw [List.forall₂_cons_left_iff]
    simp only [exists_and_left]
    rfl

theorem signature_decides (f : FuncDef) (hs : s.Valid) (hS : s.scopes = S) :
    Decides s (fun M Γ => ∃ τs, List.Forall₂ Decl.Allows f.params τs ∧
        ∃ ρ, (S.context M).Adds f.name (.fn τs ρ) Γ)
      (fun _ _ => True) (fun _ s' M => s'.scopes.context M) (signature f s) := by
  refine (parameterTypes_infers f.params hs hS).bind
    (Q := fun M τs Γ => ∃ ρ, (S.context M).Adds f.name (.fn τs ρ) Γ) (fun M Γ _ => Iff.rfl)
    (fun M M' hagree => by rw [hs.context_congr hS hagree]) ?_
  rintro params s₁ hg₁ ⟨hS₁, hparams⟩ _
  refine (fresh_infers hg₁.valid hS₁).bind
    (Q := fun M ρ Γ => (S.context M).Adds f.name (.fn (params.map M) ρ) Γ)
    (fun M Γ _ => by simp)
    (fun M M' hagree => by rw [hg₁.valid.context_congr hS₁ hagree, hagree.map hparams]) ?_
  rintro result s₂ hg₂ ⟨hS₂, hresult⟩ _
  have hlt : ∀ j ∈ result :: params, j < s₂.types.size :=
    List.forall_mem_cons.2 ⟨hresult, fun j hj => hg₂.lt (hparams j hj)⟩
  refine (function_infers hg₂.valid hS₂ hlt).bind
    (Q := fun M τ Γ => (S.context M).Adds f.name τ Γ) (fun M Γ _ => by simp)
    (fun M M' hagree => by rw [hg₂.valid.context_congr hS₂ hagree]) ?_
  rintro type s₃ hg₃ ⟨hS₃, htype⟩ _
  refine (declare_decides hg₃.valid hS₃ htype f.name).bind (Q := fun _ Γ Γ' => Γ' = Γ)
    (fun M Γ _ => by simp) (fun _ _ _ => rfl) ?_
  intro _ s₄ hg₄ _ _
  refine .quiet (show display type s₄ = .ok _ s₄ from rfl) rfl rfl rfl ?_
  refine .noted hg₄.valid fun s₅ hs₅ _ hS₅ _ => ?_
  exact .pure hs₅ trivial fun M Γ _ => by rw [hS₅]

theorem signatures_decides : ∀ (fs : List FuncDef) {s : Session} {S : Scopes NodeId},
    s.Valid → s.scopes = S →
    Decides s (fun M Γ => Signed (S.context M) fs Γ) (fun _ _ => True)
      (fun (_ : Unit) s' M => s'.scopes.context M) (signatures fs s) := by
  intro fs
  induction fs with
  | nil =>
    rintro s _ hs rfl
    exact .pure hs trivial fun M Γ _ => Iff.rfl
  | cons f fs ih =>
    intro s S hs hS
    refine (signature_decides f hs hS).bind (Q := fun _ Γ Γ' => Signed Γ fs Γ')
      (fun M Γ _ => Iff.rfl) (fun _ _ _ => rfl) ?_
    intro _ s₁ hg₁ _ _
    exact ih hg₁.valid rfl

/-! ### Bodies -/

/-- Parameters are declared with nodes that have the types written, where there are any. -/
theorem parameters_decides : ∀ (ps : List Decl) (types : List NodeId) {s : Session}
    {S : Scopes NodeId}, s.Valid → s.scopes = S → (∀ i ∈ types, i < s.types.size) →
    ps.length = types.length →
    (∀ M, s.types.Admits M → List.Forall₂ Decl.Allows ps (types.map M)) →
    Decides s (fun M Γ => DeclsTyped (S.context M) ps (types.map M) Γ) (fun _ _ => True)
      (fun (_ : Unit) s' M => s'.scopes.context M) (parameters ps types s)
  | [], [], s, _, hs, rfl, _, _, _ =>
    .pure hs trivial fun M Γ _ =>
      (declsTyped_nil_iff (b := ([], Γ))).trans ⟨fun h => (Prod.mk.inj h).2, fun h => by rw [h]⟩
  | p :: ps, i :: types, s, S, hs, hS, hlt, hlen, hallows => by
    have hi := hlt i List.mem_cons_self
    have htypes : ∀ j ∈ types, j < s.types.size := fun j hj => hlt j (List.mem_cons_of_mem _ hj)
    refine (declare_decides hs hS hi p.name).bind
      (Q := fun M Γ Γ' => DeclsTyped Γ ps (types.map M) Γ') (fun M Γ hM => ?_)
      (fun M M' hagree => by rw [hagree.map htypes]) ?_
    · have hallow := (List.forall₂_cons.1 (hallows M hM)).1
      constructor
      · intro h
        cases h with
        | cons hd hds =>
          obtain ⟨τ, -, Γ₁, hadds, heq⟩ := (declTyped_iff (b := (_, _))).1 hd
          cases heq
          exact ⟨_, hadds, hds⟩
      · rintro ⟨Γ₁, hadds, hds⟩
        exact .cons ((declTyped_iff (b := (_, _))).2 ⟨M i, hallow, Γ₁, hadds, rfl⟩) hds
    · intro _ s₁ hg₁ _ _
      refine parameters_decides ps types hg₁.valid rfl (fun j hj => hg₁.lt (htypes j hj))
        (Nat.succ.inj hlen) fun M hM => ?_
      exact (List.forall₂_cons.1 (hallows M (hg₁.types.admits hM))).2

/-- The return type is set for the time of some work. -/
theorem withReturnType_decides {P : Valuation → β → Prop} {I : α → TypeStore → Prop}
    {read : α → Valuation → β} {work : Checker α} {result : NodeId} (hr : s.returnType = none)
    (hw : Decides { s with returnType := some result } P
      (fun a s' => s'.scopes = S ∧ I a s'.types) (fun a _ M => read a M)
      (work { s with returnType := some result })) :
    Decides s P (fun a s' => s'.scopes = S ∧ I a s'.types) (fun a _ M => read a M)
      ((do
        setReturnType (some result)
        andThenAlways work (setReturnType none) : Checker α) s) := by
  rw [bind_of_ok (setReturnType_eq (some result) s)]
  refine .andThenAlways hw rfl fun s₂ hg => ⟨{ s₂ with returnType := none }, rfl, ?_, rfl, ?_⟩
  · have hvalid : ({ s₂ with returnType := none } : Session).Valid :=
      ⟨hg.valid.types, hg.valid.scopes, hg.valid.opened, by simp⟩
    exact ⟨hvalid, hg.types, hg.outer, hr.symm⟩
  · exact fun a ha => ha

/-- The body of a function whose type is known. -/
theorem body_decides {f : FuncDef} {result : NodeId} {params : List NodeId} (hs : s.Valid)
    (hS : s.scopes = S.enter) (hr : s.returnType = some result)
    (hlt : ∀ j ∈ result :: params, j < s.types.size) (hlen : params.length = f.params.length)
    (hallows : ∀ M, s.types.Admits M → List.Forall₂ Decl.Allows f.params (params.map M)) :
    Decides s (fun M b => ∃ Γ, DeclsTyped (Frame.empty :: S.context M) f.params (params.map M) Γ ∧
        ∃ b₁ : List GroundTy × Context, StmtTyped (some (M result)) Γ f.body b₁.1 b₁.2 ∧
          b = (⟨params.map M, M result, b₁.1⟩, b₁.2))
      (fun t s' => t.Within s'.types)
      (fun t s' M => (t.map M, s'.scopes.context M))
      ((do
        parameters f.params params
        return ⟨params, result, ← stmtNodes f.body⟩ : Checker (FuncTypes NodeId)) s) := by
  have hresult := hlt result List.mem_cons_self
  have hparams : ∀ j ∈ params, j < s.types.size := fun j hj => hlt j (List.mem_cons_of_mem _ hj)
  refine (parameters_decides f.params params hs hS hparams hlen.symm hallows).bind
    (Q := fun M Γ b => ∃ b₁ : List GroundTy × Context,
      StmtTyped (some (M result)) Γ f.body b₁.1 b₁.2 ∧
        b = (⟨params.map M, M result, b₁.1⟩, b₁.2))
    (fun M b _ => Iff.rfl)
    (fun M M' hagree => by rw [hagree.map hparams, hagree result hresult]) ?_
  intro _ s₁ hg₁ _ _
  refine (stmtNodes_declares f.body hg₁.valid rfl (hg₁.returnType.trans hr)).map
    (h := fun M b₁ => (⟨params.map M, M result, b₁.1⟩, b₁.2)) (fun M b _ => Iff.rfl)
    (fun M M' hagree => ?_) (fun is s₂ hg₂ his => ?_) fun _ _ _ => rfl
  · rw [hagree.map fun j hj => hg₁.lt (hparams j hj), hagree result (hg₁.lt hresult)]
  · exact List.forall_mem_cons.2 ⟨hg₂.lt (hg₁.lt hresult),
      List.forall_mem_append.2 ⟨fun j hj => hg₂.lt (hg₁.lt (hparams j hj)), his⟩⟩

/-- A function's body is checked in a scope of its own and against the type of its result. -/
theorem typedBody_decides {f : FuncDef} {result : NodeId} {params : List NodeId} (hs : s.Valid)
    (hS : s.scopes = S) (hr : s.returnType = none)
    (hlt : ∀ j ∈ result :: params, j < s.types.size) (hlen : params.length = f.params.length)
    (hallows : ∀ M, s.types.Admits M → List.Forall₂ Decl.Allows f.params (params.map M)) :
    Decides s (fun M t => ∃ Γ' Γ,
        DeclsTyped (Frame.empty :: S.context M) f.params (params.map M) Γ ∧
        ∃ b : List GroundTy × Context, StmtTyped (some (M result)) Γ f.body b.1 b.2 ∧
          (t, Γ') = (⟨params.map M, M result, b.1⟩, b.2))
      (fun t s' => s'.scopes = S ∧ t.Within s'.types) (fun t _ M => t.map M)
      ((do
        setReturnType (some result)
        andThenAlways
          (withScope do
            parameters f.params params
            return ⟨params, result, ← stmtNodes f.body⟩)
          (setReturnType none) : Checker (FuncTypes NodeId)) s) := by
  have hvalid : ({ s with returnType := some result } : Session).Valid := by
    refine ⟨hs.types, hs.scopes, hs.opened, fun i hi => ?_⟩
    cases hi
    exact hlt result List.mem_cons_self
  subst hS
  refine withReturnType_decides hr
    (withScope_decides hvalid fun s₁ hs₁ ht₁ hS₁ hr₁ => ?_)
  refine (body_decides hs₁ hS₁ hr₁ ?_ hlen ?_).forgetContext
  · rw [ht₁]
    exact hlt
  · rw [ht₁]
    exact hallows

variable {scope : List (String × NodeId)}

/-- What the first round leaves for the second: every function has a type of its own, with the
parameters' types as they are written. -/
def Registered (scope : List (String × NodeId)) (fs : List FuncDef) (s : Session) : Prop :=
  ∀ M, s.types.Admits M →
    ∃ ts, List.Forall₂ (fun f t => frameOf M scope f.name = some t.type ∧ ParamsAllow f t) fs ts

/-- A type that is a function's under every valuation is one already. -/
theorem Represents.exists_function {i root : NodeId} {node : Node} (hs : s.Valid)
    (h : Represents S i (root, node) s)
    (hfn : ∀ M, s.types.Admits M → ∃ τs ρ, M i = .fn τs ρ) :
    ∃ result params, node = .function result params := by
  have hwf := hs.types.toWellFormed
  have hM := TypeStore.admits_groundAt hwf fun _ => .base .int
  obtain ⟨τs, ρ, heq⟩ := hfn _ hM
  rw [← h.same _ hM] at heq
  rcases node with t | ⟨id, _ | j⟩ | ⟨result, params⟩
  · rw [hM.constant h.node] at heq
    cases heq
  · -- an unbound variable could be an integer
    rw [TypeStore.groundAt, TypeStore.denote_unbound h.node] at heq
    cases heq
  · exact absurd h.node (h.root id j)
  · exact ⟨result, params, rfl⟩

theorem functionNodes_decides (f : FuncDef) (hs : s.Valid) (hS : s.scopes = ⟨[scope]⟩)
    (hr : s.returnType = none) (hreg : Registered scope [f] s) :
    Decides s (fun M t => frameOf M scope f.name = some t.type ∧ FuncTyped (frameOf M scope) f t)
      (fun t s' => s'.scopes = ⟨[scope]⟩ ∧ t.Within s'.types)
      (fun t _ M => t.map M) (functionNodes f s) := by
  refine (lookup_infers hs hS f.name).bind
    (Q := fun M τ t => τ = t.type ∧ FuncTyped (frameOf M scope) f t) (fun M t _ => ?_)
    (fun M M' hagree => by rw [hs.frame_congr hS hagree]) ?_
  · change _ ↔ ∃ τ, Context.Resolves [frameOf M scope] f.name τ ∧ _
    simp only [resolves_singleton_iff]
    constructor
    · rintro ⟨hname, hbody⟩
      exact ⟨_, hname, rfl, hbody⟩
    · rintro ⟨_, hname, rfl, hbody⟩
      exact ⟨hname, hbody⟩
  rintro i s₁ hg₁ ⟨hS₁, hi⟩ hname
  refine (representative_decides hg₁.valid hS₁ hi).bind
    (Q := fun M _ t => M i = t.type ∧ FuncTyped (frameOf M scope) f t) (fun M t _ => by simp)
    (fun M M' hagree => by rw [hg₁.valid.frame_congr hS₁ hagree, hagree i hi]) ?_
  rintro ⟨root, node⟩ s₂ hg₂ hrep _
  have hs₂ := hg₂.valid
  have hknown : ∀ M, s₂.types.Admits M →
      ∃ t : FuncTypes GroundTy, M i = t.type ∧ ParamsAllow f t := by
    intro M hM
    have hM₁ := hg₂.types.admits hM
    obtain ⟨_, hts⟩ := hreg M (hg₁.types.admits hM₁)
    obtain ⟨t, _, ⟨htype, hallow⟩, -, -⟩ := List.forall₂_cons_left_iff.1 hts
    have hi' := resolves_singleton_iff.1 (hname M hM₁)
    rw [htype] at hi'
    exact ⟨t, (Option.some.inj hi').symm, hallow⟩
  -- so the name stands for a function, with the right number of parameters
  obtain ⟨result, params, rfl⟩ := hrep.exists_function hs₂ fun M hM => by
    obtain ⟨t, ht, -⟩ := hknown M hM
    exact ⟨_, _, ht⟩
  have hfn : ∀ M, s₂.types.Admits M → M i = .fn (params.map M) (M result) := fun M hM => by
    rw [← hrep.same M hM, hM.function hrep.node]
  have hallows : ∀ M, s₂.types.Admits M → List.Forall₂ Decl.Allows f.params (params.map M) := by
    intro M hM
    obtain ⟨⟨_, _, _⟩, ht, hallow⟩ := hknown M hM
    rw [hfn M hM] at ht
    cases ht
    exact hallow
  have hlen : params.length = f.params.length := by
    have h := hallows _ (TypeStore.admits_groundAt hs₂.types.toWellFormed fun _ => .base .int)
    rw [h.length_eq, List.length_map]
  dsimp only
  rw [if_pos hlen]
  refine .noted hs₂ fun s₃ hs₃ ht₃ hS₃ hr₃ => ?_
  refine (typedBody_decides hs₃ (hS₃.trans hrep.scopes)
    (hr₃.trans (hg₂.returnType.trans (hg₁.returnType.trans hr)))
    (fun j hj => ht₃ ▸ hs₂.types.lt_of_mem_links hrep.node hj) hlen
    fun M hM => hallows M (ht₃ ▸ hM)).congr fun M t hM => ?_
  rw [hfn M (ht₃ ▸ hM)]
  exact funcTyped_iff

theorem functionsNodes_decides : ∀ (fs : List FuncDef) {s : Session}, s.Valid →
    s.scopes = ⟨[scope]⟩ → s.returnType = none → Registered scope fs s →
    Decides s (fun M ts => List.Forall₂ (fun f t => frameOf M scope f.name = some t.type ∧
        FuncTyped (frameOf M scope) f t) fs ts)
      (fun ts s' => s'.scopes = ⟨[scope]⟩ ∧ ∀ t ∈ ts, t.Within s'.types)
      (fun ts _ M => ts.map (FuncTypes.map M)) (functionsNodes fs s) := by
  intro fs
  induction fs with
  | nil =>
    intro s hs hS _ _
    refine .pure hs ⟨hS, by simp⟩ fun M ts _ => ?_
    rw [List.forall₂_nil_left_iff, List.map_nil]
  | cons f fs ih =>
    intro s hs hS hr hreg
    have hhead : Registered scope [f] s := fun M hM => by
      obtain ⟨_, hts⟩ := hreg M hM
      obtain ⟨t, _, hf, -, -⟩ := List.forall₂_cons_left_iff.1 hts
      exact ⟨[t], .cons hf .nil⟩
    refine (functionNodes_decides f hs hS hr hhead).bind
      (Q := fun M t ts => ∃ ts', List.Forall₂ (fun f t => frameOf M scope f.name = some t.type ∧
        FuncTyped (frameOf M scope) f t) fs ts' ∧ ts = t :: ts')
      (fun M ts _ => ?_) (fun M M' hagree => by rw [hs.frame_congr hS hagree]) ?_
    · rw [List.forall₂_cons_left_iff]
      simp only [exists_and_left]
    · rintro t s₁ hg₁ ⟨hS₁, ht⟩ _
      have hrest : Registered scope fs s₁ := fun M hM => by
        obtain ⟨_, hts⟩ := hreg M (hg₁.types.admits hM)
        obtain ⟨_, ts, -, hfs, -⟩ := List.forall₂_cons_left_iff.1 hts
        exact ⟨ts, hfs⟩
      refine (ih hg₁.valid hS₁ (hg₁.returnType.trans hr) hrest).map
        (h := fun M ts => t.map M :: ts) (fun M ts _ => Iff.rfl)
        (fun M M' hagree => by rw [ht.map_eq hagree]) ?_ fun _ _ _ => rfl
      rintro ts s₂ hg₂ ⟨hS₂, hts⟩
      exact ⟨hS₂, List.forall_mem_cons.2 ⟨fun i hi => hg₂.lt (ht i hi), hts⟩⟩

/-! ### Programs -/

theorem setReturnType_of_eq {ret : Option NodeId} (h : s.returnType = ret) :
    setReturnType ret s = .ok () s := by
  subst h
  rfl

/-- After the first round one scope is open, and it has the functions. -/
theorem exists_registered {fs : List FuncDef} (hg : Session.initial.Grows s)
    (hsigned : ∀ M, s.types.Admits M → Signed [Frame.empty] fs (s.scopes.context M)) :
    ∃ scope, s.scopes = ⟨[scope]⟩ ∧ Registered scope fs s := by
  obtain ⟨scope, outer, hstack⟩ := List.exists_cons_of_ne_nil hg.valid.opened
  have houter := hg.outer
  rw [hstack] at houter
  change outer = [] at houter
  subst houter
  have hS : s.scopes = ⟨[scope]⟩ := congrArg Scopes.mk hstack
  refine ⟨scope, hS, fun M hM => ?_⟩
  obtain ⟨F, ts, hd, hallows, heq⟩ := signed_iff.1 (hsigned M hM)
  rw [hS] at heq
  cases heq
  exact ⟨ts, hd.type_eq hallows⟩

/-- **Checking a program decides the types of its declarations.** -/
theorem itemNodes_decides (p : Program) :
    Decides Session.initial (fun _ b => ProgramTyped p b.1 b.2) (fun _ _ => True)
      (fun t s M => (t.map M, s.scopes.context M)) (itemNodes p Session.initial) := by
  refine .noted Session.valid_initial fun s₀ hs₀ ht₀ hS₀ hr₀ => ?_
  refine (signatures_decides p.functions hs₀ hS₀).bind (fun M b _ => programTyped_iff)
    (fun _ _ _ => rfl) ?_
  intro _ s₁ hg₁ _ hsigned
  have hg₀ : Session.initial.Grows s₁ :=
    ⟨hg₁.valid, ht₀ ▸ hg₁.types, by rw [hg₁.outer, hS₀], hg₁.returnType.trans hr₀⟩
  obtain ⟨scope, hS₁, hreg⟩ := exists_registered hg₀ hsigned
  have hctx : ∀ M, s₁.scopes.context M = [frameOf M scope] := fun M => by rw [hS₁]; rfl
  refine (functionsNodes_decides p.functions hg₁.valid hS₁ hg₀.returnType hreg).bind
    (Q := fun M ts b => ∃ b₁ : List GroundTy × Context,
      DeclsTyped [frameOf M scope] p.globals b₁.1 b₁.2 ∧
        ∃ b₂ : List GroundTy × Context, StmtsTyped none b₁.2 p.main b₂.1 b₂.2 ∧
          b = (⟨ts, b₁.1, b₂.1⟩, b₂.2))
    (fun M b _ => ?_) (fun M M' hagree => by rw [hg₁.valid.frame_congr hS₁ hagree]) ?_
  · rw [hctx]
    constructor
    · rintro ⟨_, heq, h⟩
      cases heq
      exact h
    · exact fun h => ⟨_, rfl, h⟩
  rintro ts s₂ hg₂ ⟨hS₂, hts⟩ _
  refine .noted hg₂.valid fun s₃ hs₃ ht₃ hS₃ hr₃ => ?_
  have hr : s₃.returnType = none := hr₃.trans (hg₂.returnType.trans hg₀.returnType)
  have hwithin : ∀ t ∈ ts, t.Within s₃.types := ht₃ ▸ hts
  -- every body has put the return type back already
  rw [bind_of_ok (setReturnType_of_eq hr)]
  refine (declarationNodes_declares p.globals hs₃ (hS₃.trans hS₂)).bind
    (Q := fun M b₁ b => ∃ b₂ : List GroundTy × Context,
      StmtsTyped none b₁.2 p.main b₂.1 b₂.2 ∧
        b = (⟨ts.map (FuncTypes.map M), b₁.1, b₂.1⟩, b₂.2))
    (fun M b _ => Iff.rfl) (fun M M' hagree => ?_) ?_
  · rw [List.map_congr_left fun t ht => (hwithin t ht).map_eq hagree]
  intro globals s₄ hg₄ hglobals _
  refine (stmtsNodes_declares p.main hg₄.valid rfl (hg₄.returnType.trans hr)).map
    (h := fun M b₂ => (⟨ts.map (FuncTypes.map M), globals.map M, b₂.1⟩, b₂.2))
    (fun M b _ => Iff.rfl) (fun M M' hagree => ?_) (fun _ _ _ _ => trivial) fun _ _ _ => rfl
  have hwithin₄ : ∀ t ∈ ts, t.Within s₄.types := fun t ht i hi => hg₄.lt (hwithin t ht i hi)
  rw [List.map_congr_left fun t ht => (hwithin₄ t ht).map_eq hagree, hagree.map hglobals]

end Checker

end SimpleLang
