import SimpleLang.Check.Expr

/-!
# Checking statements
-/

namespace SimpleLang.Checker

/-- Declares a variable, with the type written or else a new one, and gives its type. -/
def declaration (d : Decl) : Checker NodeId := do
  let type ← onTypes (·.declared d.type)
  declare d.name type d.span.start
  return type

/-- Declares some variables. -/
def declarations : List Decl → Checker Unit
  | [] => return ()
  | d :: ds => do
    let _ ← declaration d
    declarations ds

/-- Requires a condition to be a truth value. -/
def condition (e : Expr) : Checker Unit := do
  let type ← expr e
  unify (TypeStore.constant .bool) type e.span.start

mutual

/-- Checks a statement. -/
def stmt : Stmt → Checker Unit
  | .decl _ d => do
    let _ ← declaration d
  | .block _ ds ss => withScope do
    declarations ds
    stmts ss
  | .assign span target value => do
    let type ← lookup target span.start
    let valueType ← expr value
    unify type valueType value.span.start
  | .ifThen _ c t => do
    condition c
    stmt t
  | .ifElse _ c t e => do
    condition c
    stmt t
    stmt e
  | .while _ c b => do
    condition c
    stmt b
  | .return span value => do
    match (← get).returnType with
    | none => reject .returnOutsideFunction span.start
    | some expected =>
      let type ← expr value
      unify expected type value.span.start

/-- Checks statements in order. -/
def stmts : List Stmt → Checker Unit
  | [] => return ()
  | s :: ss => do
    stmt s
    stmts ss

end

end SimpleLang.Checker
