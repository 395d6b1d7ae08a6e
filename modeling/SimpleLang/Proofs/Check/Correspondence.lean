import SimpleLang.Proofs.Check.Simulation

/-!
# Corresponding checks

The walk through the checks for `Checker.Corresponds`: expressions, statements, functions and
programs, over any access that simulates the store's own operations.  Each part is shown to leave
alone what its frame says, in every well-formed session.
-/

namespace SimpleLang

namespace Checker

open Session (Related)

variable {A : Access} {R : Inference → Inference → Prop} {s s' : Session} {D : String → Prop}

/-! ### Expressions -/

theorem operation_corresponds (h : A.Simulates R) (hR : Related R s s') (op : BinaryOp)
    {left right : NodeId} {p q : Position} (hl : left < s.types.size)
    (hr : right < s.types.size) :
    Corresponds R (s.Frame D) (fun i t => i < t.types.size) (operation op left right p q s)
      (A.operation op left right p q s') := by
  rw [operation, Access.operation]
  cases operandType op with
  | none =>
    refine (unify_corresponds h hR hl hr).bind fun _ t t' hRt _ _ => ?_
    exact .pure hRt (hRt.wellFormed.constants _)
  | some b =>
    refine (unify_corresponds h hR (hR.wellFormed.constants b) hl).bind fun _ t t' hRt hF _ => ?_
    refine (unify_corresponds h hRt (hRt.wellFormed.constants b) (hF.lt hr)).bind
      fun _ u u' hRu _ _ => ?_
    exact .pure hRu (hRu.wellFormed.constants _)

mutual

/-- **Checking an expression** declares nothing and gives a node of the store. -/
theorem expr_corresponds (h : A.Simulates R) : ∀ (e : Expr) {s s' : Session}, Related R s s' →
    Corresponds R (s.Frame D) (fun i t => i < t.types.size) (expr e s) (A.expr e s')
  | .name span x, s, s', hR => by
    rw [expr, Access.expr]
    exact lookup_corresponds hR x
  | .int _ _, s, s', hR => by
    rw [expr, Access.expr]
    exact .pure hR (hR.wellFormed.constants _)
  | .bool _ _, s, s', hR => by
    rw [expr, Access.expr]
    exact .pure hR (hR.wellFormed.constants _)
  | .binary _ left op right, s, s', hR => by
    rw [expr, Access.expr]
    refine (expr_corresponds h left hR).bind fun l t t' hRt _ hl => ?_
    refine (expr_corresponds h right hRt).bind fun r u u' hRu hF hr => ?_
    exact operation_corresponds h hRu op (hF.lt hl) hr
  | .call span callee arguments, s, s', hR => by
    rw [expr, Access.expr]
    refine (lookup_corresponds hR callee).bind fun type t t' hRt _ htype => ?_
    refine (representative_corresponds h hRt htype).bind ?_
    rintro ⟨root, node⟩ u u' hRu hF ⟨hnode, hroot⟩
    rcases node with b | ⟨id, _ | j⟩ | ⟨result, params⟩
    · refine (display_corresponds h hRu (TypeStore.lt_size_of_node? hnode)).bind
        fun _ v v' hRv _ _ => ?_
      exact .reject hRv
    · -- nothing is known of the callee yet: it gets the function type that the call asks for
      refine (inferArguments_corresponds h arguments hRu).bind fun types v v' hRv hFv htypes => ?_
      refine (fresh_corresponds h hRv).bind fun result w w' hRw hFw hresult => ?_
      have hlt : ∀ j ∈ result :: types, j < w.types.size :=
        List.forall_mem_cons.2 ⟨hresult, fun j hj => hFw.lt (htypes j hj)⟩
      refine (functionType_corresponds h hRw hlt).bind fun inferred x x' hRx hFx hinferred => ?_
      have htype' := hFx.lt (hFw.lt (hFv.lt (hF.lt htype)))
      refine (unify_corresponds h hRx htype' (TypeStore.lt_size_of_node? hinferred)).bind
        fun _ y y' hRy hFy _ => ?_
      exact .pure hRy (hFy.lt (hFx.lt hresult))
    · -- a representative is not bound
      exact absurd hnode (hroot id j)
    · have hlt : ∀ j ∈ result :: params, j < u.types.size :=
        fun j hj => hRu.wellFormed.types.lt_of_mem_links hnode hj
      dsimp only
      split
      · refine (checkArguments_corresponds h arguments hRu
          fun j hj => hlt j (List.mem_cons_of_mem _ hj)).bind fun _ v v' hRv hFv _ => ?_
        exact .pure hRv (hFv.lt (hlt result List.mem_cons_self))
      · exact .reject hRu

theorem checkArguments_corresponds (h : A.Simulates R) : ∀ (arguments : List Expr)
    {params : List NodeId} {s s' : Session}, Related R s s' →
    (∀ j ∈ params, j < s.types.size) →
    Corresponds R (s.Frame D) (fun _ _ => True) (checkArguments params arguments s)
      (A.checkArguments params arguments s')
  | [], params, s, s', hR, _ => by
    cases params <;> simp only [checkArguments, Access.checkArguments] <;> exact .pure hR trivial
  | e :: es, [], s, s', hR, _ => by
    simp only [checkArguments, Access.checkArguments]
    exact .pure hR trivial
  | e :: es, p :: ps, s, s', hR, hlt => by
    rw [checkArguments, Access.checkArguments]
    refine (expr_corresponds h e hR).bind fun i t t' hRt hF hi => ?_
    refine (unify_corresponds h hRt (hF.lt (hlt p List.mem_cons_self)) hi).bind
      fun _ u u' hRu hFu _ => ?_
    exact checkArguments_corresponds h es hRu
      fun j hj => hFu.lt (hF.lt (hlt j (List.mem_cons_of_mem _ hj)))

theorem inferArguments_corresponds (h : A.Simulates R) : ∀ (arguments : List Expr)
    {s s' : Session}, Related R s s' →
    Corresponds R (s.Frame D) (fun is t => ∀ i ∈ is, i < t.types.size)
      (inferArguments arguments s) (A.inferArguments arguments s')
  | [], s, s', hR => by
    rw [inferArguments, Access.inferArguments]
    exact .pure hR (by simp)
  | e :: es, s, s', hR => by
    rw [inferArguments, Access.inferArguments]
    refine (expr_corresponds h e hR).bind fun i t t' hRt _ hi => ?_
    refine (inferArguments_corresponds h es hRt).bind fun is u u' hRu hFu his => ?_
    exact .pure hRu (List.forall_mem_cons.2 ⟨hFu.lt hi, his⟩)

end

/-! ### Declarations and statements -/

theorem declaration_corresponds (h : A.Simulates R) (hR : Related R s s') (d : Decl)
    (hD : D d.name) :
    Corresponds R (s.Frame D) (fun i t => i < t.types.size) (declaration d s)
      (declaration d s') := by
  refine (declared_corresponds h hR d.type).bind fun i t t' hRt _ hi => ?_
  refine (declare_corresponds hRt hD hi).bind fun _ u u' hRu hFu _ => ?_
  exact .pure hRu (hFu.lt hi)

theorem declarations_corresponds (h : A.Simulates R) : ∀ (ds : List Decl) {s s' : Session},
    Related R s s' → (∀ d ∈ ds, D d.name) →
    Corresponds R (s.Frame D) (fun _ _ => True) (declarations ds s) (declarations ds s') := by
  intro ds
  induction ds with
  | nil => exact fun hR _ => .pure hR trivial
  | cons d ds ih =>
    intro s s' hR hD
    refine (declaration_corresponds h hR d (hD d List.mem_cons_self)).bind
      fun _ t t' hRt _ _ => ?_
    exact ih hRt fun e he => hD e (List.mem_cons_of_mem _ he)

theorem condition_corresponds (h : A.Simulates R) (hR : Related R s s') (c : Expr) :
    Corresponds R (s.Frame D) (fun _ _ => True) (condition c s) (A.condition c s') := by
  refine (expr_corresponds h c hR).bind fun i t t' hRt _ hi => ?_
  exact unify_corresponds h hRt (hRt.wellFormed.constants _) hi

/-- A value of a type that is known. -/
theorem value_corresponds (h : A.Simulates R) (hR : Related R s s') {a : NodeId}
    (ha : a < s.types.size) (value : Expr) {position : Position} :
    Corresponds R (s.Frame D) (fun _ _ => True)
      ((do
        let type ← expr value
        unify a type position : Checker Unit) s)
      ((do
        let type ← A.expr value
        A.equate a type position : Checker Unit) s') := by
  refine (expr_corresponds h value hR).bind fun i t t' hRt hF hi => ?_
  exact unify_corresponds h hRt (hF.lt ha) hi

mutual

/-- **Checking a statement** declares no more than the names of the declarations that stand in its
own scope. -/
theorem stmt_corresponds (h : A.Simulates R) : ∀ (st : Stmt) {D : String → Prop}
    {s s' : Session}, Related R s s' → (∀ x ∈ st.declared, D x) →
    Corresponds R (s.Frame D) (fun _ _ => True) (stmt st s) (A.stmt st s')
  | .decl _ d, D, s, s', hR, hD => by
    rw [stmt, Access.stmt]
    refine (declaration_corresponds h hR d (hD _ (by simp [Stmt.declared]))).bind
      fun _ t t' hRt _ _ => ?_
    exact .pure hRt trivial
  | .block _ ds ss, D, s, s', hR, _ => by
    -- whatever is declared in the scope of the block is gone with it
    rw [stmt, Access.stmt]
    refine withScope_corresponds (fun _ => True) h hR fun t t' hRt _ => ?_
    refine (declarations_corresponds h ds hRt fun _ _ => trivial).bind fun _ u u' hRu _ _ => ?_
    exact stmts_corresponds h ss hRu fun _ _ _ _ => trivial
  | .assign span target value, D, s, s', hR, _ => by
    rw [stmt, Access.stmt]
    refine (lookup_corresponds hR target).bind fun a t t' hRt _ ha => ?_
    exact value_corresponds h hRt ha value
  | .ifThen _ c b, D, s, s', hR, hD => by
    rw [stmt, Access.stmt]
    refine (condition_corresponds h hR c).bind fun _ t t' hRt _ _ => ?_
    exact stmt_corresponds h b hRt hD
  | .ifElse _ c b e, D, s, s', hR, hD => by
    rw [stmt, Access.stmt]
    rw [Stmt.declared] at hD
    refine (condition_corresponds h hR c).bind fun _ t t' hRt _ _ => ?_
    refine (stmt_corresponds h b hRt fun x hx => hD x (List.mem_append_left _ hx)).bind
      fun _ u u' hRu _ _ => ?_
    exact stmt_corresponds h e hRu fun x hx => hD x (List.mem_append_right _ hx)
  | .while _ c b, D, s, s', hR, hD => by
    rw [stmt, Access.stmt]
    refine (condition_corresponds h hR c).bind fun _ t t' hRt _ _ => ?_
    exact stmt_corresponds h b hRt hD
  | .return span value, D, s, s', hR, _ => by
    rw [stmt, Access.stmt, bind_of_ok (get_eq s), bind_of_ok (get_eq s'), hR.returnType]
    cases hret : s.returnType with
    | none => exact .reject hR
    | some a => exact value_corresponds h hR (hR.wellFormed.returnType a hret) value

theorem stmts_corresponds (h : A.Simulates R) : ∀ (ss : List Stmt) {D : String → Prop}
    {s s' : Session}, Related R s s' → (∀ st ∈ ss, ∀ x ∈ st.declared, D x) →
    Corresponds R (s.Frame D) (fun _ _ => True) (stmts ss s) (A.stmts ss s')
  | [], D, s, s', hR, _ => by
    rw [stmts, Access.stmts]
    exact .pure hR trivial
  | st :: ss, D, s, s', hR, hD => by
    rw [stmts, Access.stmts]
    refine (stmt_corresponds h st hR (hD st List.mem_cons_self)).bind fun _ t t' hRt _ _ => ?_
    exact stmts_corresponds h ss hRt fun st' hst' => hD st' (List.mem_cons_of_mem _ hst')

end

/-! ### Functions -/

theorem parameterTypes_corresponds (h : A.Simulates R) : ∀ (ps : List Decl) {s s' : Session},
    Related R s s' →
    Corresponds R (s.Frame D) (fun is t => is.length = ps.length ∧ ∀ i ∈ is, i < t.types.size)
      (parameterTypes ps s) (parameterTypes ps s') := by
  intro ps
  induction ps with
  | nil => exact fun hR => .pure hR (by simp)
  | cons p ps ih =>
    intro s s' hR
    refine (declared_corresponds h hR p.type).bind fun i t t' hRt _ hi => ?_
    refine (ih hRt).bind fun is u u' hRu hFu his => ?_
    exact .pure hRu ⟨by rw [List.length_cons, List.length_cons, his.1],
      List.forall_mem_cons.2 ⟨hFu.lt hi, his.2⟩⟩

/-- The name of a definition is declared in the innermost scope, with a function type of as many
parameters as the definition has. -/
def HasSignature (f : FuncDef) (type : NodeId) (s : Session) : Prop :=
  s.scopes.here? f.name = some type ∧ ∃ result params,
    s.types.node? type = some (.function result params) ∧ params.length = f.params.length

theorem HasSignature.keep {f : FuncDef} {type : NodeId} {t : Session} (h : HasSignature f type s)
    (htypes : s.types.Extends t.types) (hscopes : s.scopes.Extends D t.scopes) :
    HasSignature f type t := by
  obtain ⟨hname, result, params, hnode, hlen⟩ := h
  exact ⟨hscopes.here?_eq hname, result, params, htypes.function hnode, hlen⟩

theorem signature_corresponds (h : A.Simulates R) (hR : Related R s s') (f : FuncDef)
    (hD : D f.name) :
    Corresponds R (s.Frame D) (HasSignature f) (signature f s) (A.signature f s') := by
  rw [signature, Access.signature]
  refine (parameterTypes_corresponds h f.params hR).bind fun params t t' hRt _ hparams => ?_
  refine (fresh_corresponds h hRt).bind fun result u u' hRu hFu hresult => ?_
  have hlt : ∀ j ∈ result :: params, j < u.types.size :=
    List.forall_mem_cons.2 ⟨hresult, fun j hj => hFu.lt (hparams.2 j hj)⟩
  refine (functionType_corresponds h hRu hlt).bind fun type v v' hRv _ hnode => ?_
  have htype := TypeStore.lt_size_of_node? hnode
  refine (declare_corresponds hRv hD htype).bind fun _ w w' hRw hFw hname => ?_
  have hsigned : HasSignature f type w :=
    ⟨hname, result, params, hFw.types.function hnode, hparams.1⟩
  refine (display_corresponds h hRw (hFw.lt htype)).bind fun text x x' hRx hFx _ => ?_
  refine (note_corresponds h _ hRx).bind fun _ y y' hRy hFy _ => ?_
  exact .pure hRy ((hsigned.keep hFx.types hFx.scopes).keep hFy.types hFy.scopes)

theorem signatures_corresponds (h : A.Simulates R) : ∀ (fs : List FuncDef) {s s' : Session},
    Related R s s' → (∀ f ∈ fs, D f.name) →
    Corresponds R (s.Frame D) (fun _ _ => True) (signatures fs s) (A.signatures fs s') := by
  intro fs
  induction fs with
  | nil => exact fun hR _ => .pure hR trivial
  | cons f fs ih =>
    intro s s' hR hD
    refine (signature_corresponds h hR f (hD f List.mem_cons_self)).bind fun _ t t' hRt _ _ => ?_
    exact ih hRt fun g hg => hD g (List.mem_cons_of_mem _ hg)

theorem parameters_corresponds : ∀ (ps : List Decl) (types : List NodeId) {s s' : Session},
    Related R s s' → (∀ i ∈ types, i < s.types.size) → (∀ p ∈ ps, D p.name) →
    Corresponds R (s.Frame D) (fun _ _ => True) (parameters ps types s) (parameters ps types s')
  | [], types, s, s', hR, _, _ => by
    cases types <;> exact .pure hR trivial
  | p :: ps, [], s, s', hR, _, _ => .pure hR trivial
  | p :: ps, i :: types, s, s', hR, hlt, hD => by
    rw [parameters]
    refine (declare_corresponds hR (hD p List.mem_cons_self) (hlt i List.mem_cons_self)).bind
      fun _ t t' hRt hF _ => ?_
    exact parameters_corresponds ps types hRt
      (fun j hj => hF.lt (hlt j (List.mem_cons_of_mem _ hj)))
      fun q hq => hD q (List.mem_cons_of_mem _ hq)

/-- What the check of a function leaves of a session: all but the return type, which is forgotten
when a body has been checked. -/
structure FunctionFrame (s t : Session) : Prop where
  /-- Types become more definite at most. -/
  types : s.types.Extends t.types
  /-- No scope has changed. -/
  scopes : t.scopes = s.scopes
  /-- The return type is the same, or there is none. -/
  returnType : t.returnType = s.returnType ∨ t.returnType = none

namespace FunctionFrame

variable {t u : Session}

theorem of_frame (hF : s.Frame (fun _ => False) t) : FunctionFrame s t :=
  ⟨hF.types, hF.scopes.eq_of_forall_not fun _ h => h, .inl hF.returnType⟩

theorem trans (h : FunctionFrame s t) (h' : FunctionFrame t u) : FunctionFrame s u where
  types := h.types.trans h'.types
  scopes := h'.scopes.trans h.scopes
  returnType := by
    rcases h'.returnType with heq | hnone
    · rw [heq]
      exact h.returnType
    · exact .inr hnone

end FunctionFrame

/-- Checks the body of a function whose type is known. -/
def body (f : FuncDef) (result : NodeId) (params : List NodeId) : Checker Unit := do
  note (.checkingBody f.name)
  setReturnType (some result)
  andThenAlways
    (withScope do
      parameters f.params params
      stmt f.body)
    (setReturnType none)

/-- The body of a function is checked in a scope of its own, and there is no return type after it.
-/
theorem body_corresponds (h : A.Simulates R) (hR : Related R s s') (f : FuncDef)
    {result : NodeId} {params : List NodeId} (hlt : ∀ j ∈ result :: params, j < s.types.size) :
    Corresponds R (fun t => FunctionFrame s t ∧ t.returnType = none) (fun _ _ => True)
      (body f result params s) (A.body f result params s') := by
  rw [body, Access.body, bind_of_ok (note_eq _ s), bind_of_ok (setReturnType_eq _ _),
    bind_of_ok (note_eq _ s'), bind_of_ok (setReturnType_eq _ _)]
  have hR₁ : Related R { s with
      log := s.log.push (.checkingBody f.name), returnType := some result }
      { s' with log := s'.log.push (.checkingBody f.name), returnType := some result } := by
    refine ⟨?_, h.note _ hR.types, hR.scopes, rfl⟩
    refine (hR.wellFormed.of_types (i := { s.toInference with log := s.log.push _ })
      hR.wellFormed.types (Nat.le_refl _)).setReturnType fun i hi => ?_
    cases hi
    exact hlt result List.mem_cons_self
  refine .andThenAlways (withScope_corresponds (D := fun _ => False) (fun _ => True) h hR₁
    fun t t' hRt ht => ?_) fun t t' hRt hF =>
      ⟨_, _, setReturnType_eq none t, setReturnType_eq none t', ?_, ?_, fun _ h => h⟩
  · have hparams : ∀ i ∈ params, i < t.types.size := fun i hi => by
      rw [ht]
      exact hlt i (List.mem_cons_of_mem _ hi)
    refine (parameters_corresponds f.params params hRt hparams fun _ _ => trivial).bind
      fun _ u u' hRu _ _ => ?_
    exact stmt_corresponds h f.body hRu fun _ _ => trivial
  · exact ⟨hRt.wellFormed.setReturnType (by simp), hRt.types, hRt.scopes, rfl⟩
  · exact ⟨⟨hF.types, hF.scopes.eq_of_forall_not fun _ h => h, .inr rfl⟩, rfl⟩

theorem function_corresponds (h : A.Simulates R) (hR : Related R s s') (f : FuncDef) :
    Corresponds R (FunctionFrame s) (fun _ _ => True) (function f s) (A.function f s') := by
  rw [function, Access.function]
  refine (lookup_corresponds (D := fun _ => False) hR f.name).seq (fun _ => .of_frame)
    fun type t t' hRt hFt htype => ?_
  refine (representative_corresponds (D := fun _ => False) h hRt htype).seq
    (fun _ hu => (FunctionFrame.of_frame hFt).trans (.of_frame hu)) ?_
  rintro ⟨root, node⟩ u u' hRu hFu ⟨hnode, -⟩
  have hsu := (FunctionFrame.of_frame hFt).trans (.of_frame hFu)
  -- in any session the name may be declared as something else than a function
  have hnotCallable : Corresponds R (FunctionFrame s) (fun _ _ => True)
      ((do reject (.notCallable f.name (← display root)) f.span.start : Checker Unit) u)
      ((do reject (.notCallable f.name (← A.shown root f.span.start)) f.span.start :
        Checker Unit) u') := by
    refine (display_corresponds (D := fun _ => False) h hRu
      (TypeStore.lt_size_of_node? hnode)).seq (fun _ hv => hsu.trans (.of_frame hv)) ?_
    exact fun _ v v' hRv hFv _ => .rejected hRv (hsu.trans (.of_frame hFv))
  cases node with
  | constant b => exact hnotCallable
  | var id b => exact hnotCallable
  | function result params =>
    have hlt : ∀ j ∈ result :: params, j < u.types.size :=
      fun j hj => hRu.wellFormed.types.lt_of_mem_links hnode hj
    dsimp only
    split
    · exact (body_corresponds h hRu f hlt).imp (fun _ hv => hsu.trans hv.1) fun _ _ _ h => h
    · exact .rejected hRu hsu

theorem functions_corresponds (h : A.Simulates R) : ∀ (fs : List FuncDef) {s s' : Session},
    Related R s s' →
    Corresponds R (FunctionFrame s) (fun _ _ => True) (functions fs s) (A.functions fs s') := by
  intro fs
  induction fs with
  | nil => exact fun hR => .accepted hR (.of_frame (.refl _ _)) trivial
  | cons f fs ih =>
    intro s s' hR
    refine (function_corresponds h hR f).seq (fun _ h => h) fun _ t t' hRt hFt _ => ?_
    exact (ih hRt).imp (fun _ hu => hFt.trans hu) fun _ _ _ h => h

/-! ### Programs -/

/-- What a check leaves of the session it is started in: names may be declared in the innermost
scope, and types become more definite at most. -/
structure ProgramFrame (s t : Session) : Prop where
  /-- Types become more definite at most. -/
  types : s.types.Extends t.types
  /-- Only the innermost scope has changed, by declarations of new names. -/
  scopes : s.scopes.Extends (fun _ => True) t.scopes
  /-- No return type is left over. -/
  returnType : s.returnType = none → t.returnType = none

namespace ProgramFrame

variable {t u : Session} {D : String → Prop}

theorem trans (h : ProgramFrame s t) (h' : ProgramFrame t u) : ProgramFrame s u :=
  ⟨h.types.trans h'.types, h.scopes.trans h'.scopes, fun hs => h'.returnType (h.returnType hs)⟩

theorem of_frame (hF : s.Frame D t) : ProgramFrame s t :=
  ⟨hF.types, hF.scopes.mono fun _ _ => trivial, fun hs => hF.returnType.trans hs⟩

theorem of_function (hF : FunctionFrame s t) : ProgramFrame s t where
  types := hF.types
  scopes := hF.scopes ▸ .refl
  returnType hs := by
    rcases hF.returnType with heq | hnone
    · rw [heq, hs]
    · exact hnone

end ProgramFrame

theorem items_corresponds (h : A.Simulates R) (hR : Related R s s') (p : Program) :
    Corresponds R (ProgramFrame s) (fun _ _ => True) (items p s) (A.items p s') := by
  rw [items, Access.items]
  refine (note_corresponds (D := fun _ => True) h _ hR).seq (fun _ => .of_frame)
    fun _ t t' hRt hFt _ => ?_
  refine (signatures_corresponds (D := fun _ => True) h p.functions hRt fun _ _ => trivial).seq
    (fun _ hu => .of_frame (hFt.trans hu)) fun _ u u' hRu hFu _ => ?_
  have hsu := ProgramFrame.of_frame (hFt.trans hFu)
  -- bodies are checked in scopes of their own, so the functions stay declared
  refine (functions_corresponds h p.functions hRu).seq
    (fun _ hv => hsu.trans (.of_function hv)) fun _ v v' hRv hFv _ => ?_
  have hsv := hsu.trans (.of_function hFv)
  refine (note_corresponds (D := fun _ => True) h _ hRv).seq
    (fun _ hw => hsv.trans (.of_frame hw)) fun _ w w' hRw hFw _ => ?_
  have hsw := hsv.trans (.of_frame hFw)
  rw [bind_of_ok (setReturnType_eq none w), bind_of_ok (setReturnType_eq none w')]
  have hRx : Related R { w with returnType := none } { w' with returnType := none } :=
    ⟨hRw.wellFormed.setReturnType (by simp), hRw.types, hRw.scopes, rfl⟩
  have hsx : ProgramFrame s { w with returnType := none } :=
    ⟨hsw.types, hsw.scopes, fun _ => rfl⟩
  refine (declarations_corresponds (D := fun _ => True) h p.globals hRx fun _ _ => trivial).seq
    (fun _ hy => hsx.trans (.of_frame hy)) fun _ y y' hRy hFy _ => ?_
  exact (stmts_corresponds (D := fun _ => True) h p.main hRy fun _ _ _ _ => trivial).imp
    (fun _ hz => (hsx.trans (.of_frame hFy)).trans (.of_frame hz)) fun _ _ _ h => h

/-- **Checking a program** over a simulating access comes to the same outcome, in related
sessions, and breaks no contract. -/
theorem program_corresponds (h : A.Simulates R) (hR : Related R s s') (p : Program) :
    Corresponds R (ProgramFrame s) (fun _ _ => True) (program p s) (A.program p s') := by
  have hitems := items_corresponds h hR p
  unfold program Access.program
  generalize items p s = r, A.items p s' = r' at hitems
  cases hitems with
  | @accepted _ t t' hRt hFt _ =>
    dsimp only
    rw [h.varCount_eq hRt.types]
    exact (note_corresponds (D := fun _ => True) h _ hRt).imp
      (fun _ hu => hFt.trans (.of_frame hu)) fun _ _ _ h => h
  | @rejected d t t' hRt hFt =>
    exact (note_corresponds (D := fun _ => True) h _ hRt).seq
      (fun _ hu => hFt.trans (.of_frame hu))
      fun _ u u' hRu hFu _ => .rejected hRu (hFt.trans (.of_frame hFu))

end Checker

/-- **A faithful access gives the check itself.** -/
theorem Access.Faithful.check_eq {A : Access} (h : A.Faithful) (p : Program) :
    A.check p = p.check :=
  (Checker.program_corresponds h.simulates Session.wellFormed_initial.related p).eq

end SimpleLang
