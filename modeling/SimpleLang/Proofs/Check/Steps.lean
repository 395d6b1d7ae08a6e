import SimpleLang.Proofs.Check.Decides

/-!
# What the steps of a check decide

One statement for each step that checks are made of: new types, equal types, names and scopes.
None of them breaks a contract in a valid session.
-/

namespace SimpleLang

/-- The innermost scope gets a declaration of a name that it does not declare yet. -/
def Context.Adds (Γ : Context) (x : String) (τ : GroundTy) (Γ' : Context) : Prop :=
  ∃ F Γ₀, Γ = F :: Γ₀ ∧ F x = none ∧ Γ' = F.add x τ :: Γ₀

namespace Checker

open TypeStore

variable {α β : Type} {s : Session} {S : Scopes NodeId} {i : NodeId} {position : Position}

/-! ### Types -/

/-- One more node can have any type. -/
theorem agree_update (s : Session) (M : Valuation) (τ : GroundTy) :
    s.Agree M (Function.update M s.types.size τ) :=
  fun _ hi => Function.update_of_ne (Nat.ne_of_lt hi) _ _

theorem fresh_infers (hs : s.Valid) (hS : s.scopes = S) :
    Infers S s (fun _ _ => True) (onTypes (·.fresh) s) := by
  refine .accepted (.of_extends hs hs.types.fresh (extends_push _ _ _) rfl rfl)
    ⟨hS, ?_⟩ (fun _ _ => trivial) fun M τ hM _ => ?_
  · exact Nat.lt_of_lt_of_eq (Nat.lt_succ_self _) (size_push _ _ _).symm
  · have hagree := agree_update s M τ
    exact ⟨_, admits_fresh_iff.2 (hM.congr hs.types.toWellFormed hagree), hagree,
      Function.update_self _ _ _⟩

/-- A type that is written is taken, and any type may stand where none is. -/
theorem declared_infers (hs : s.Valid) (hS : s.scopes = S) (t : Option BaseType) :
    Infers S s (fun _ τ => ∀ b, t = some b → τ = .base b) (onTypes (·.declared t) s) := by
  cases t with
  | none => exact (fresh_infers hs hS).congr fun _ _ _ => by simp
  | some t =>
    refine .pure (a := constant t) hs ⟨hS, hs.constant_lt t⟩ fun M τ hM => ?_
    rw [hM.constant (hs.types.constant t)]
    simp

theorem function_infers {result : NodeId} {params : List NodeId} (hs : s.Valid)
    (hS : s.scopes = S) (h : ∀ j ∈ result :: params, j < s.types.size) :
    Infers S s (fun M τ => τ = .fn (params.map M) (M result))
      (onTypes (·.function result params) s) := by
  refine .accepted (.of_extends hs (hs.types.function h) (extends_push _ _ _) rfl rfl)
    ⟨hS, ?_⟩ (fun M hM => (admits_function_iff.1 hM).2) fun M τ hM hτ => ?_
  · exact Nat.lt_of_lt_of_eq (Nat.lt_succ_self _) (size_push _ _ _).symm
  · have hagree := agree_update s M τ
    refine ⟨_, admits_function_iff.2 ⟨hM.congr hs.types.toWellFormed hagree, ?_⟩, hagree,
      Function.update_self _ _ _⟩
    rw [Function.update_self, hagree.map fun j hj => h j (by simp [hj]),
      hagree result (h result (by simp)), hτ]

theorem unify_requires {a b : NodeId} (hs : s.Valid) (hS : s.scopes = S)
    (ha : a < s.types.size) (hb : b < s.types.size) :
    Requires S s (fun M => M a = M b) (unify a b position s) := by
  have h := Unifier.unify_solves (i := s.toInference) hs.types.toWellFormed ha hb
  unfold unify infer
  generalize Unifier.unify a b s.toInference = r at h
  rcases r with ⟨_, i⟩ | ⟨_ | _, i⟩
  · obtain ⟨href, hM⟩ := h
    refine .accepted (.of_extends hs (hs.types.refines href) href.toExtends rfl rfl) hS
      (fun M hm => GroundTy.toTy_injective ((hM _).1 hm).2) fun M _ hm hab => ?_
    exact ⟨M, (hM _).2 ⟨hm, congrArg _ hab⟩, .refl s M, rfl⟩
  · obtain ⟨href, hM⟩ := h
    refine .rejected (.of_extends hs (hs.types.refines href) href.toExtends rfl rfl)
      fun M _ hm hab => hM _ hm (congrArg _ hab)
  · exact h.elim

/-- What is known of a node's representative and its number. -/
structure Represents (S : Scopes NodeId) (i : NodeId) (p : NodeId × Node) (s : Session) :
    Prop where
  /-- No name is declared. -/
  scopes : s.scopes = S
  /-- The node with that number. -/
  node : s.types.node? p.1 = some p.2
  /-- It is not bound. -/
  root : s.types.Root p.1
  /-- It has the same type. -/
  same : ∀ M, s.types.Admits M → M p.1 = M i

theorem representative_decides (hs : s.Valid) (hS : s.scopes = S) (hi : i < s.types.size) :
    Decides s (fun _ (_ : Unit) => True) (Represents S i) (fun _ _ _ => ())
      (representative i position s) := by
  have hfind := find_sameTypes hs.types.toWellFormed i
  obtain ⟨n, hn, hroot⟩ := exists_representative hs.types.toWellFormed hi
  rw [representative_of_node hn]
  refine .accepted (.of_extends hs (hs.types.refines hfind.toRefines) hfind.toExtends rfl rfl)
    ⟨hS, hn, hroot, fun M hM => ?_⟩ (fun _ _ => trivial)
    fun M _ hM _ => ⟨M, hfind.models_of _ hM, .refl s M, rfl⟩
  exact (hfind.toExtends.admits hM).resolve hs.types.toWellFormed i

/-! ### Names -/

theorem lookup_infers (hs : s.Valid) (hS : s.scopes = S) (x : String) :
    Infers S s (fun M τ => (S.context M).Resolves x τ) (lookup x position s) := by
  cases hl : s.scopes.lookup? x with
  | none =>
    rw [lookup_of_none hl]
    refine .reject hs fun M τ _ h => ?_
    obtain ⟨j, hj, -⟩ := Scopes.resolves_context_iff.1 h
    rw [← hS, hl] at hj
    cases hj
  | some i =>
    rw [lookup_of_some hl]
    refine .pure hs ⟨hS, hs.wellFormed.lookup_lt hl⟩ fun M τ _ => ?_
    rw [Scopes.resolves_context_iff, ← hS, hl]
    simp [eq_comm]

theorem declare_decides (hs : s.Valid) (hS : s.scopes = S) (hi : i < s.types.size)
    (x : String) :
    Decides s (fun M Γ => (S.context M).Adds x (M i) Γ) (fun _ s' => s'.types = s.types)
      (fun (_ : Unit) s' M => s'.scopes.context M) (declare x i position s) := by
  subst hS
  obtain ⟨scope, outer, hstack⟩ := List.exists_cons_of_ne_nil hs.opened
  have hctx : ∀ M, s.scopes.context M = frameOf M scope :: outer.map (frameOf M) := fun M => by
    rw [Scopes.context, hstack, List.map_cons]
  cases hl : scope.lookup x with
  | some j =>
    -- the frame of the scope declares the name under every valuation
    rw [declare_of_duplicate hstack hl]
    refine .reject hs fun M Γ _ hadds => ?_
    obtain ⟨F, Γ₀, heq, hnone, -⟩ := hadds
    rw [hctx, List.cons.injEq] at heq
    rw [← heq.1, frameOf, hl] at hnone
    cases hnone
  | none =>
    rw [declare_of_new hstack hl]
    have hnew : ∀ M, Scopes.context ⟨((x, i) :: scope) :: outer⟩ M =
        (frameOf M scope).add x (M i) :: outer.map (frameOf M) := fun M => by
      rw [Scopes.context, List.map_cons, frameOf_cons]
    have hnone : ∀ M, frameOf M scope x = none := fun M => by rw [frameOf, hl, Option.map_none]
    refine .accepted
      ⟨hs.declare hstack hi x, .refl _, by rw [hstack, List.tail_cons, List.tail_cons], rfl⟩ rfl
      (fun M _ => ⟨_, _, hctx M, hnone M, hnew M⟩) fun M Γ hM hadds => ?_
    obtain ⟨F, Γ₀, heq, -, rfl⟩ := hadds
    rw [hctx, List.cons.injEq] at heq
    exact ⟨M, hM, .refl s M, by rw [hnew, heq.1, heq.2]⟩

/-! ### Scopes -/

/-- A scope of its own keeps what is declared in it from what is around. -/
theorem withScope_decides {P : Valuation → β → Prop} {I : α → TypeStore → Prop}
    {read : α → Valuation → β} {work : Checker α} (hs : s.Valid)
    (hw : ∀ s₁, s₁.Valid → s₁.types = s.types → s₁.scopes = s.scopes.enter →
      s₁.returnType = s.returnType →
      Decides s₁ P (fun a s' => I a s'.types) (fun a _ M => read a M) (work s₁)) :
    Decides s P (fun a s' => s'.scopes = s.scopes ∧ I a s'.types) (fun a _ M => read a M)
      (withScope work s) := by
  rw [withScope, bind_of_ok (enterScope_eq s)]
  refine .andThenAlways (hw _ (hs.enter rfl rfl rfl) rfl rfl rfl) rfl fun s₂ hg => ?_
  -- whatever the work has declared is in the scope that is closed
  have hexit := exitScope_of_exit (hg.valid.wellFormed.exit hg.outer)
  refine ⟨_, hexit, ?_, rfl, ?_⟩
  · exact .of_extends hs hg.valid.types hg.types rfl hg.returnType
  · exact fun a ha => ⟨rfl, ha⟩

end Checker

end SimpleLang
