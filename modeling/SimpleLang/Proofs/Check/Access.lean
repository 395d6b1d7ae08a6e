import SimpleLang.Check.Program
import SimpleLang.Proofs.Types.Access

/-!
# Checks over a way to read the store

The checks again, with the way in which they read the store of types as a parameter.  With the
store's own operations they are the checks themselves (`Access.Faithful.check_eq`).
-/

namespace SimpleLang.Access

open Checker (infer lookup reject note declare setReturnType andThenAlways withScope onTypes
  operandType resultType declaration declarations parameterTypes parameters)

variable (A : Access)

/-! ### Steps -/

/-- Makes two types equal; if they cannot be, that is reported at `position`. -/
def equate (expected received : NodeId) (position : Position) : Checker Unit :=
  infer position (A.unify expected received)

/-- The node that represents a type, and its number. -/
def representative (type : NodeId) (position : Position) : Checker (NodeId × Node) :=
  infer position do
    let root ← A.find type
    return (root, ← Unifier.node root)

/-- A type as it is shown. -/
def shown (type : NodeId) (position : Position) : Checker String :=
  infer position (A.display type)

/-! ### Expressions -/

/-- Requires of two operands what their operator does, and gives the type of the result. -/
def operation (op : BinaryOp) (left right : NodeId) (leftStart rightStart : Position) :
    Checker NodeId := do
  match operandType op with
  | some t =>
    A.equate (TypeStore.constant t) left leftStart
    A.equate (TypeStore.constant t) right rightStart
  | none => A.equate left right rightStart
  return TypeStore.constant (resultType op)

mutual

/-- The type of an expression. -/
def expr : Expr → Checker NodeId
  | .name span name => lookup name span.start
  | .int _ _ => return TypeStore.constant .int
  | .bool _ _ => return TypeStore.constant .bool
  | .binary _ left op right => do
    let l ← expr left
    let r ← expr right
    A.operation op l r left.span.start right.span.start
  | .call span callee arguments => do
    let type ← lookup callee span.start
    let (root, node) ← A.representative type span.start
    match node with
    | .function result params =>
      if params.length = arguments.length then
        checkArguments params arguments
        return result
      else reject (.arityMismatch params.length arguments.length) span.start
    | .var _ none =>
      let types ← inferArguments arguments
      let result ← onTypes (·.fresh)
      let inferred ← onTypes (·.function result types)
      A.equate type inferred span.start
      return result
    | _ => reject (.notCallable callee (← A.shown root span.start)) span.start

/-- Requires of arguments the types of the parameters they stand for. -/
def checkArguments : List NodeId → List Expr → Checker Unit
  | param :: params, argument :: arguments => do
    let type ← expr argument
    A.equate param type argument.span.start
    checkArguments params arguments
  | _, _ => return ()

/-- The types of arguments. -/
def inferArguments : List Expr → Checker (List NodeId)
  | [] => return []
  | argument :: arguments => do
    let type ← expr argument
    return type :: (← inferArguments arguments)

end

/-! ### Statements -/

/-- Requires a condition to be a truth value. -/
def condition (e : Expr) : Checker Unit := do
  let type ← A.expr e
  A.equate (TypeStore.constant .bool) type e.span.start

mutual

/-- Checks a statement. -/
def stmt : Stmt → Checker Unit
  | .decl _ d => do
    let _ ← declaration d
  | .block _ ds ss => withScope do
    declarations ds
    stmts ss
  | .assign span target value => do
    let type ← lookup target span.start
    let valueType ← A.expr value
    A.equate type valueType value.span.start
  | .ifThen _ c t => do
    A.condition c
    stmt t
  | .ifElse _ c t e => do
    A.condition c
    stmt t
    stmt e
  | .while _ c b => do
    A.condition c
    stmt b
  | .return span value => do
    match (← get).returnType with
    | none => reject .returnOutsideFunction span.start
    | some expected =>
      let type ← A.expr value
      A.equate expected type value.span.start

/-- Checks statements in order. -/
def stmts : List Stmt → Checker Unit
  | [] => return ()
  | s :: ss => do
    stmt s
    stmts ss

end

/-! ### Programs -/

/-- Declares a function, with new types where none are written, and gives its type. -/
def signature (f : FuncDef) : Checker NodeId := do
  let params ← parameterTypes f.params
  let result ← onTypes (·.fresh)
  let type ← onTypes (·.function result params)
  declare f.name type f.span.start
  note (.registered f.name (← A.shown type f.span.start))
  return type

/-- Declares functions in order. -/
def signatures : List FuncDef → Checker Unit
  | [] => return ()
  | f :: fs => do
    let _ ← A.signature f
    signatures fs

/-- Checks the body of a function whose type is known. -/
def body (f : FuncDef) (result : NodeId) (params : List NodeId) : Checker Unit := do
  note (.checkingBody f.name)
  setReturnType (some result)
  andThenAlways
    (withScope do
      parameters f.params params
      A.stmt f.body)
    (setReturnType none)

/-- Checks the body of a function against the type that its name has. -/
def function (f : FuncDef) : Checker Unit := do
  let type ← lookup f.name f.span.start
  let (root, node) ← A.representative type f.span.start
  match node with
  | .function result params =>
    if params.length = f.params.length then A.body f result params
    else reject (.arityMismatch params.length f.params.length) f.span.start
  | _ => reject (.notCallable f.name (← A.shown root f.span.start)) f.span.start

/-- Checks the bodies of functions in order. -/
def functions : List FuncDef → Checker Unit
  | [] => return ()
  | f :: fs => do
    A.function f
    functions fs

/-- Checks the parts of a program. -/
def items (p : Program) : Checker Unit := do
  note (.registering p.functions.length)
  A.signatures p.functions
  A.functions p.functions
  note (.checkingMain p.globals.length p.main.length)
  setReturnType none
  declarations p.globals
  A.stmts p.main

/-- Checks a program, and logs the outcome. -/
def program (p : Program) : Checker Unit := fun s =>
  match A.items p s with
  | .ok _ s => note (.wellTyped s.types.varCount) s
  | .error (.rejected d) s => (do note (.failed d); throw (.rejected d) : Checker Unit) s
  | .error (.breach b) s => .error (.breach b) s

/-- Checks a program. -/
def check (p : Program) : Checked := (A.program p).run .initial

end SimpleLang.Access
