import SimpleLang.Check.Session

/-!
# Checking expressions

The type of an expression is found from those of its parts, left to right.  What an expression
requires of the types of its parts is required as soon as they are known.
-/

namespace SimpleLang.Checker

/-- The type that an operator's operands must have; nothing if they only have to agree. -/
def operandType : BinaryOp → Option BaseType
  | .add | .sub | .mul | .div | .less | .greater => some .int
  | .and | .or => some .bool
  | .equal => none

/-- The type of an operator's result. -/
def resultType : BinaryOp → BaseType
  | .add | .sub | .mul | .div => .int
  | .equal | .less | .greater | .and | .or => .bool

/-- Requires of two operands what their operator does, and gives the type of the result. -/
def operation (op : BinaryOp) (left right : NodeId) (leftStart rightStart : Position) :
    Checker NodeId := do
  match operandType op with
  | some t =>
    unify (TypeStore.constant t) left leftStart
    unify (TypeStore.constant t) right rightStart
  | none => unify left right rightStart
  return TypeStore.constant (resultType op)

mutual

/-- The type of an expression. -/
def expr : Expr → Checker NodeId
  | .name span name => lookup name span.start
  | .int _ _ => return TypeStore.constant .int
  | .bool _ _ => return TypeStore.constant .bool
  | .binary _ left op right => do
    let l ← expr left
    let r ← expr right
    operation op l r left.span.start right.span.start
  | .call span callee arguments => do
    let type ← lookup callee span.start
    let (root, node) ← representative type span.start
    match node with
    | .function result params =>
      if params.length = arguments.length then
        checkArguments params arguments
        return result
      else reject (.arityMismatch params.length arguments.length) span.start
    | .var _ none =>
      let types ← inferArguments arguments
      let result ← onTypes (·.fresh)
      let inferred ← onTypes (·.function result types)
      unify type inferred span.start
      return result
    | _ => reject (.notCallable callee (← display root)) span.start

/-- Requires of arguments the types of the parameters they stand for. -/
def checkArguments : List NodeId → List Expr → Checker Unit
  | param :: params, argument :: arguments => do
    let type ← expr argument
    unify param type argument.span.start
    checkArguments params arguments
  | _, _ => return ()

/-- The types of arguments. -/
def inferArguments : List Expr → Checker (List NodeId)
  | [] => return []
  | argument :: arguments => do
    let type ← expr argument
    return type :: (← inferArguments arguments)

end

end SimpleLang.Checker
