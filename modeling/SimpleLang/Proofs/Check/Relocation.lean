import SimpleLang.Check.Program
import SimpleLang.Proofs.Outcome
import SimpleLang.Proofs.Tree

/-!
# Checks of programs elsewhere

Where a program stands decides nothing but where its problems are reported: checking it elsewhere
does the same to the session and comes to the same outcome, with the diagnostic, if there is one,
moved along (`Checker.items_relocate`).
-/

namespace SimpleLang

namespace Checker

variable {α β : Type} (ρ : Relocation)

/-- The same check with its problems reported elsewhere. -/
def relocated (x : Checker α) : Checker α := fun s =>
  match x s with
  | .ok a t => .ok a t
  | .error e t => .error (e.map (Diagnostic.relocate ρ)) t

variable {ρ} in
theorem relocated_of_ok {x : Checker α} {s t : Session} {a : α} (h : x s = .ok a t) :
    relocated ρ x s = .ok a t := by
  rw [relocated, h]

variable {ρ} in
theorem relocated_of_error {x : Checker α} {s t : Session} {e : Failure Diagnostic}
    (h : x s = .error e t) : relocated ρ x s = .error (e.map (Diagnostic.relocate ρ)) t := by
  rw [relocated, h]

variable {ρ} in
theorem relocated_eq_of_eq {x y : Checker α} {s t : Session} (h : x s = y t) :
    relocated ρ x s = relocated ρ y t := by
  rw [relocated, relocated, h]

/-! ### Steps -/

@[simp] theorem relocated_pure (a : α) : relocated ρ (pure a : Checker α) = pure a := rfl

@[simp] theorem relocated_bind (x : Checker α) (f : α → Checker β) :
    relocated ρ (x >>= f) = relocated ρ x >>= fun a => relocated ρ (f a) := by
  funext s
  cases h : x s with
  | ok a t =>
    rw [bind_of_ok (relocated_of_ok h), relocated, bind_of_ok h]
    rfl
  | error e t => rw [bind_of_error (relocated_of_error h), relocated, bind_of_error h]

@[simp] theorem relocated_map (f : α → β) (x : Checker α) :
    relocated ρ (f <$> x) = f <$> relocated ρ x := by
  rw [map_eq_pure_bind, map_eq_pure_bind, relocated_bind]
  rfl

@[simp] theorem relocated_get : relocated ρ get = get := rfl

@[simp] theorem relocated_reject (problem : Problem) (position : Position) :
    relocated ρ (reject problem position : Checker α) = reject problem (ρ.start position) := rfl

@[simp] theorem relocated_infer (position : Position) (work : Unifier α) :
    relocated ρ (infer position work) = infer (ρ.start position) work := by
  funext s
  unfold relocated infer
  rcases work s.toInference with ⟨a, i⟩ | ⟨_ | _, i⟩ <;> rfl

@[simp] theorem relocated_unify (expected received : NodeId) (position : Position) :
    relocated ρ (unify expected received position) = unify expected received (ρ.start position) :=
  relocated_infer ρ position _

@[simp] theorem relocated_representative (type : NodeId) (position : Position) :
    relocated ρ (representative type position) = representative type (ρ.start position) :=
  relocated_infer ρ position _

@[simp] theorem relocated_note (e : Event) : relocated ρ (note e) = note e := rfl

@[simp] theorem relocated_onTypes (f : TypeStore → α × TypeStore) :
    relocated ρ (onTypes f) = onTypes f := rfl

@[simp] theorem relocated_display (type : NodeId) : relocated ρ (display type) = display type := rfl

@[simp] theorem relocated_enterScope : relocated ρ enterScope = enterScope := rfl

@[simp] theorem relocated_exitScope : relocated ρ exitScope = exitScope := by
  unfold exitScope
  rw [relocated_bind, relocated_get]
  congr 1
  funext s
  split <;> rfl

@[simp] theorem relocated_setReturnType (type : Option NodeId) :
    relocated ρ (setReturnType type) = setReturnType type := rfl

@[simp] theorem relocated_declare (name : String) (type : NodeId) (position : Position) :
    relocated ρ (declare name type position) = declare name type (ρ.start position) := by
  unfold declare
  rw [relocated_bind, relocated_get]
  congr 1
  funext s
  split <;> rfl

@[simp] theorem relocated_lookup (name : String) (position : Position) :
    relocated ρ (lookup name position) = lookup name (ρ.start position) := by
  unfold lookup
  rw [relocated_bind, relocated_get]
  congr 1
  funext s
  split <;> rfl

@[simp] theorem relocated_andThenAlways (work : Checker α) (after : Checker Unit) :
    relocated ρ (andThenAlways work after) =
      andThenAlways (relocated ρ work) (relocated ρ after) := by
  funext s
  rcases h : work s with ⟨a, t⟩ | ⟨d | b, t⟩
  · have hrun : andThenAlways work after s = (do after; return a : Checker α) t := by
      rw [andThenAlways, h]
    rw [relocated_eq_of_eq hrun, andThenAlways, relocated_of_ok h, relocated_bind]
    rfl
  · have hrun : andThenAlways work after s = (do after; throw (.rejected d) : Checker α) t := by
      rw [andThenAlways, h]
    rw [relocated_eq_of_eq hrun, andThenAlways, relocated_of_error h, relocated_bind]
    rfl
  · have hrun : andThenAlways work after s = .error (.breach b) t := by
      rw [andThenAlways, h]
    rw [relocated_of_error hrun, andThenAlways, relocated_of_error h]
    rfl

@[simp] theorem relocated_withScope (work : Checker α) :
    relocated ρ (withScope work) = withScope (relocated ρ work) := by
  simp [withScope]

/-! ### Expressions -/

theorem operation_relocate (op : BinaryOp) (left right : NodeId) (p q : Position) :
    operation op left right (ρ.start p) (ρ.start q) =
      relocated ρ (operation op left right p q) := by
  unfold operation
  cases operandType op <;> simp

mutual

theorem expr_relocate : ∀ e : Expr, expr (e.relocate ρ) = relocated ρ (expr e)
  | .name span x => by simp [Expr.relocate, expr]
  | .int _ _ => by simp [Expr.relocate, expr]
  | .bool _ _ => by simp [Expr.relocate, expr]
  | .binary _ left op right => by
    simp [Expr.relocate, expr, expr_relocate left, expr_relocate right, operation_relocate]
  | .call span callee arguments => by
    simp only [Expr.relocate, expr, relocated_bind, relocated_lookup, relocated_representative,
      Span.relocate_start]
    congr 1
    funext type
    congr 1
    funext ⟨root, node⟩
    rcases node with b | ⟨id, _ | j⟩ | ⟨result, params⟩
    · simp
    · simp [inferArguments_relocate arguments]
    · simp
    · dsimp only
      have hlength : (Expr.relocateAll ρ arguments).length = arguments.length := by
        simp [Expr.relocateAll_eq_map]
      rw [hlength]
      split
      · simp [checkArguments_relocate arguments]
      · simp

theorem checkArguments_relocate : ∀ (arguments : List Expr) (params : List NodeId),
    checkArguments params (Expr.relocateAll ρ arguments) =
      relocated ρ (checkArguments params arguments)
  | [], params => by cases params <;> simp [Expr.relocateAll, checkArguments]
  | _ :: _, [] => by simp [Expr.relocateAll, checkArguments]
  | e :: es, p :: ps => by
    simp [Expr.relocateAll, checkArguments, expr_relocate e, checkArguments_relocate es]

theorem inferArguments_relocate : ∀ arguments : List Expr,
    inferArguments (Expr.relocateAll ρ arguments) = relocated ρ (inferArguments arguments)
  | [] => by simp [Expr.relocateAll, inferArguments]
  | e :: es => by
    simp [Expr.relocateAll, inferArguments, expr_relocate e, inferArguments_relocate es]

end

/-! ### Statements -/

theorem declaration_relocate (d : Decl) :
    declaration (d.relocate ρ) = relocated ρ (declaration d) := by
  simp [declaration, Decl.relocate]

theorem declarations_relocate : ∀ ds : List Decl,
    declarations (ds.map (Decl.relocate ρ)) = relocated ρ (declarations ds)
  | [] => rfl
  | d :: ds => by simp [declarations, declaration_relocate, declarations_relocate ds]

theorem condition_relocate (e : Expr) : condition (e.relocate ρ) = relocated ρ (condition e) := by
  simp [condition, expr_relocate]

mutual

theorem stmt_relocate : ∀ st : Stmt, stmt (st.relocate ρ) = relocated ρ (stmt st)
  | .decl _ d => by simp [Stmt.relocate, stmt, declaration_relocate]
  | .block _ ds ss => by
    simp [Stmt.relocate, stmt, declarations_relocate, stmts_relocate ss]
  | .assign _ _ value => by simp [Stmt.relocate, stmt, expr_relocate]
  | .ifThen _ c t => by simp [Stmt.relocate, stmt, condition_relocate, stmt_relocate t]
  | .ifElse _ c t e => by
    simp [Stmt.relocate, stmt, condition_relocate, stmt_relocate t, stmt_relocate e]
  | .while _ c b => by simp [Stmt.relocate, stmt, condition_relocate, stmt_relocate b]
  | .return span value => by
    simp only [Stmt.relocate, stmt, relocated_bind, relocated_get]
    congr 1
    funext s
    cases s.returnType <;> simp [expr_relocate]

theorem stmts_relocate : ∀ ss : List Stmt,
    stmts (Stmt.relocateAll ρ ss) = relocated ρ (stmts ss)
  | [] => by simp [Stmt.relocateAll, stmts]
  | st :: ss => by simp [Stmt.relocateAll, stmts, stmt_relocate st, stmts_relocate ss]

end

/-! ### Programs -/

theorem parameterTypes_relocate : ∀ ps : List Decl,
    parameterTypes (ps.map (Decl.relocate ρ)) = relocated ρ (parameterTypes ps)
  | [] => rfl
  | p :: ps => by simp [parameterTypes, Decl.relocate, parameterTypes_relocate ps]

theorem signature_relocate (f : FuncDef) :
    signature (f.relocate ρ) = relocated ρ (signature f) := by
  simp [signature, FuncDef.relocate, parameterTypes_relocate]

theorem signatures_relocate : ∀ fs : List FuncDef,
    signatures (fs.map (FuncDef.relocate ρ)) = relocated ρ (signatures fs)
  | [] => rfl
  | f :: fs => by simp [signatures, signature_relocate, signatures_relocate fs]

theorem parameters_relocate : ∀ (ps : List Decl) (types : List NodeId),
    parameters (ps.map (Decl.relocate ρ)) types = relocated ρ (parameters ps types)
  | [], types => by cases types <;> rfl
  | _ :: _, [] => rfl
  | p :: ps, type :: types => by
    simp [parameters, Decl.relocate, parameters_relocate ps types]

theorem function_relocate (f : FuncDef) :
    function (f.relocate ρ) = relocated ρ (function f) := by
  simp only [function, FuncDef.relocate, relocated_bind, relocated_lookup,
    relocated_representative, Span.relocate_start]
  congr 1
  funext type
  congr 1
  funext ⟨root, node⟩
  rcases node with b | ⟨id, j⟩ | ⟨result, params⟩
  · simp
  · simp
  · simp only [List.length_map]
    split
    · simp [parameters_relocate, stmt_relocate]
    · simp

theorem functions_relocate : ∀ fs : List FuncDef,
    functions (fs.map (FuncDef.relocate ρ)) = relocated ρ (functions fs)
  | [] => rfl
  | f :: fs => by simp [functions, function_relocate, functions_relocate fs]

/-- **Checking a program elsewhere** does the same, with its problems reported elsewhere. -/
theorem items_relocate (p : Program) : items (p.relocate ρ) = relocated ρ (items p) := by
  have hmain : stmts (p.main.map (Stmt.relocate ρ)) = relocated ρ (stmts p.main) := by
    rw [← Stmt.relocateAll_eq_map, stmts_relocate]
  simp [items, Program.relocate, signatures_relocate, functions_relocate, declarations_relocate,
    hmain]

end Checker

end SimpleLang
