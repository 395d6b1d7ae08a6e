import SimpleLang.Source.Reader

/-!
# Programs as trees

Expressions, statements, declarations and functions, each with the span it was read from.  The
tree does not say where a declaration may stand: a declaration is also a statement, although no
source text gives one there.
-/

namespace SimpleLang

/-- The types that can be written in a program. -/
inductive BaseType where
  | int | bool
  deriving DecidableEq, Repr

namespace BaseType

/-- A type as it is written. -/
def text : BaseType → String
  | .int => "int"
  | .bool => "bool"

end BaseType

/-- The binary operators. -/
inductive BinaryOp where
  | add | sub | mul | div | equal | less | greater | and | or
  deriving DecidableEq, Repr

namespace BinaryOp

/-- An operator as it is written. -/
def text : BinaryOp → String
  | .add => "+"
  | .sub => "-"
  | .mul => "*"
  | .div => "/"
  | .equal => "="
  | .less => "<"
  | .greater => ">"
  | .and => "&&"
  | .or => "||"

end BinaryOp

/-- Expressions. -/
inductive Expr where
  /-- The value of a name. -/
  | name (span : Span) (name : String)
  /-- An integer literal. -/
  | int (span : Span) (value : Int64)
  /-- A truth value. -/
  | bool (span : Span) (value : Bool)
  /-- Two operands under an operator. -/
  | binary (span : Span) (left : Expr) (op : BinaryOp) (right : Expr)
  /-- A call of a named function. -/
  | call (span : Span) (callee : String) (arguments : List Expr)
  deriving Repr

namespace Expr

/-- The span of an expression. -/
def span : Expr → Span
  | .name s _ | .int s _ | .bool s _ | .binary s _ _ _ | .call s _ _ => s

end Expr

/-- A declaration of a variable or of a parameter. -/
structure Decl where
  /-- The declared name. -/
  name : String
  /-- The declared type; without one the type is inferred. -/
  type : Option BaseType
  /-- The span of type and name. -/
  span : Span
  deriving DecidableEq, Repr

/-- Statements. -/
inductive Stmt where
  /-- A declaration for the scope it stands in. -/
  | decl (span : Span) (decl : Decl)
  /-- A scope of its own: declarations, then statements. -/
  | block (span : Span) (decls : List Decl) (stmts : List Stmt)
  /-- An assignment to a name. -/
  | assign (span : Span) (target : String) (value : Expr)
  /-- A statement under a condition. -/
  | ifThen (span : Span) (condition : Expr) (thenBranch : Stmt)
  /-- A choice between two statements. -/
  | ifElse (span : Span) (condition : Expr) (thenBranch elseBranch : Stmt)
  /-- A loop. -/
  | while (span : Span) (condition : Expr) (body : Stmt)
  /-- The end of a function, with its value. -/
  | return (span : Span) (value : Expr)
  deriving Repr

namespace Stmt

/-- The span of a statement. -/
def span : Stmt → Span
  | .decl s _ | .block s _ _ | .assign s _ _ | .ifThen s _ _ | .ifElse s _ _ _ | .while s _ _
  | .return s _ => s

end Stmt

/-- A function definition.  Its return type is never written. -/
structure FuncDef where
  /-- The function's name. -/
  name : String
  /-- The parameters. -/
  params : List Decl
  /-- The body. -/
  body : Stmt
  /-- The span of the whole definition. -/
  span : Span
  deriving Repr

/-- A program: its top-level items by sort, each sort in source order. -/
structure Program where
  /-- The function definitions. -/
  functions : List FuncDef
  /-- The declarations outside of functions. -/
  globals : List Decl
  /-- The statements outside of functions. -/
  main : List Stmt
  deriving Repr

end SimpleLang
