import SimpleLang.Check.Program
import SimpleLang.Proofs.Check.Typing

/-!
# The nodes of declarations

A check declares names with nodes of the store and forgets most of them when scopes close.  Here
are the checks again, with the nodes kept: each gives the nodes of the declarations it has met,
in the order in which they stand.  Otherwise they do the very same (`Checker.stmt_eq`,
`Checker.function_eq`, `Checker.items_eq`).
-/

namespace SimpleLang

namespace Checker

/-- Declares some variables; gives their nodes. -/
def declarationNodes : List Decl → Checker (List NodeId)
  | [] => return []
  | d :: ds => do
    let i ← declaration d
    return i :: (← declarationNodes ds)

mutual

/-- Checks a statement; gives the nodes of its declarations. -/
def stmtNodes : Stmt → Checker (List NodeId)
  | .decl _ d => do
    return [← declaration d]
  | .block _ ds ss => withScope do
    let is ← declarationNodes ds
    return is ++ (← stmtsNodes ss)
  | .assign span target value => do
    let type ← lookup target span.start
    let valueType ← expr value
    unify type valueType value.span.start
    return []
  | .ifThen _ c t => do
    condition c
    stmtNodes t
  | .ifElse _ c t e => do
    condition c
    let is ← stmtNodes t
    return is ++ (← stmtNodes e)
  | .while _ c b => do
    condition c
    stmtNodes b
  | .return span value => do
    match (← get).returnType with
    | none => reject .returnOutsideFunction span.start
    | some expected =>
      let type ← expr value
      unify expected type value.span.start
      return []

/-- Checks statements in order; gives the nodes of their declarations. -/
def stmtsNodes : List Stmt → Checker (List NodeId)
  | [] => return []
  | s :: ss => do
    let is ← stmtNodes s
    return is ++ (← stmtsNodes ss)

end

/-- Checks the body of a function; gives the nodes of its parameters, its result and the
declarations in it. -/
def functionNodes (f : FuncDef) : Checker (FuncTypes NodeId) := do
  let type ← lookup f.name f.span.start
  let (root, node) ← representative type f.span.start
  match node with
  | .function result params =>
    if params.length = f.params.length then
      note (.checkingBody f.name)
      setReturnType (some result)
      andThenAlways
        (withScope do
          parameters f.params params
          return ⟨params, result, ← stmtNodes f.body⟩)
        (setReturnType none)
    else reject (.arityMismatch params.length f.params.length) f.span.start
  | _ => reject (.notCallable f.name (← display root)) f.span.start

/-- Checks the bodies of functions in order; gives their nodes. -/
def functionsNodes : List FuncDef → Checker (List (FuncTypes NodeId))
  | [] => return []
  | f :: fs => do
    let t ← functionNodes f
    return t :: (← functionsNodes fs)

/-- Checks the parts of a program; gives the nodes of its declarations. -/
def itemNodes (p : Program) : Checker (ProgramTypes NodeId) := do
  note (.registering p.functions.length)
  signatures p.functions
  let functions ← functionsNodes p.functions
  note (.checkingMain p.globals.length p.main.length)
  setReturnType none
  let globals ← declarationNodes p.globals
  return ⟨functions, globals, ← stmtsNodes p.main⟩

/-! ### The same checks -/

variable {α β : Type}

theorem andThenAlways_map (f : α → β) (work : Checker α) (after : Checker Unit) :
    andThenAlways (f <$> work) after = f <$> andThenAlways work after := by
  funext s
  change andThenAlways (EStateM.map f work) after s = EStateM.map f (andThenAlways work after) s
  simp only [andThenAlways, EStateM.map]
  rcases work s with ⟨a, s'⟩ | ⟨_ | _, s'⟩
  · simp only [bind, EStateM.bind]
    rcases after s' with _ | _ <;> rfl
  · simp only [bind, EStateM.bind]
    rcases after s' with _ | _ <;> rfl
  · rfl

theorem withScope_map (f : α → β) (work : Checker α) :
    withScope (f <$> work) = f <$> withScope work := by
  rw [withScope, withScope, andThenAlways_map, map_bind]

theorem declarations_eq (ds : List Decl) :
    declarations ds = (fun _ => ()) <$> declarationNodes ds := by
  induction ds with
  | nil => rfl
  | cons d ds ih =>
    rw [declarations, declarationNodes, ih]
    simp only [map_eq_pure_bind, bind_assoc, pure_bind]

mutual

theorem stmt_eq : ∀ s : Stmt, stmt s = (fun _ => ()) <$> stmtNodes s
  | .decl _ d => by
    rw [stmt, stmtNodes]
    simp only [map_eq_pure_bind, bind_assoc, pure_bind]
  | .block _ ds ss => by
    rw [stmt, stmtNodes, ← withScope_map, declarations_eq, stmts_eq ss]
    simp only [map_eq_pure_bind, bind_assoc, pure_bind]
  | .assign span target value => by
    rw [stmt, stmtNodes]
    simp only [map_eq_pure_bind, bind_assoc, pure_bind, bind_pure_unit]
  | .ifThen _ c t => by
    rw [stmt, stmtNodes, stmt_eq t, map_bind]
  | .ifElse _ c t e => by
    rw [stmt, stmtNodes, stmt_eq t, stmt_eq e]
    simp only [map_eq_pure_bind, bind_assoc, pure_bind]
  | .while _ c b => by
    rw [stmt, stmtNodes, stmt_eq b, map_bind]
  | .return span value => by
    rw [stmt, stmtNodes, map_bind]
    refine bind_congr fun s => ?_
    -- a return outside of functions is rejected before anything is recorded
    cases s.returnType with
    | none => rfl
    | some expected => simp only [map_eq_pure_bind, bind_assoc, pure_bind, bind_pure_unit]

theorem stmts_eq : ∀ ss : List Stmt, stmts ss = (fun _ => ()) <$> stmtsNodes ss
  | [] => rfl
  | s :: ss => by
    rw [stmts, stmtsNodes, stmt_eq s, stmts_eq ss]
    simp only [map_eq_pure_bind, bind_assoc, pure_bind]

end

theorem function_eq (f : FuncDef) : function f = (fun _ => ()) <$> functionNodes f := by
  rw [function, functionNodes, map_bind]
  refine bind_congr fun type => ?_
  rw [map_bind]
  refine bind_congr fun ⟨root, node⟩ => ?_
  cases node with
  | constant t => rfl
  | var id b => rfl
  | function result params =>
    dsimp only
    split
    · rw [stmt_eq]
      simp only [map_bind, ← andThenAlways_map, ← withScope_map]
      simp only [map_eq_pure_bind, pure_bind]
    · rfl

theorem functions_eq (fs : List FuncDef) : functions fs = (fun _ => ()) <$> functionsNodes fs := by
  induction fs with
  | nil => rfl
  | cons f fs ih =>
    rw [functions, functionsNodes, function_eq, ih]
    simp only [map_eq_pure_bind, bind_assoc, pure_bind]

theorem items_eq (p : Program) : items p = (fun _ => ()) <$> itemNodes p := by
  rw [items, itemNodes, functions_eq, declarations_eq, stmts_eq]
  simp only [map_eq_pure_bind, bind_assoc, pure_bind]

end Checker

end SimpleLang
