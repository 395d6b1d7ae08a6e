import SimpleLang.Parse.Expr

/-!
# Reading statements and declarations

A statement is told by the token it begins with.  As for expressions, the pieces take the parser
for the statements inside them as an argument, and `Parser.stmt` ties the knot.
-/

namespace SimpleLang.Parser

/-- Reads the word that declares a type; `var` declares none. -/
def declaredType : Parser (Option BaseType) := do
  let type ← match ← peekKind with
    | .varKw => pure none
    | .intKw => pure (some BaseType.int)
    | .boolKw => pure (some BaseType.bool)
    | _ => complain "expected `var`, `int` or `bool`"
  let _ ← advance
  return type

/-- Reads a type and a name, as in declarations and parameters. -/
def typedName : Parser Decl := do
  let start ← position
  let type ← declaredType
  let name ← expectOr .identifier (complain "expected identifier during variable declaration")
  return ⟨name.text, type, ⟨start, ← lastPosition⟩⟩

/-- Reads a declaration.  Its span leaves out the semicolon. -/
def declaration : Parser Decl := do
  let d ← typedName
  let _ ← expect .semicolon
  return d

/-- Reads a block: declarations, then statements. -/
def block (stmt : Parser Stmt) : Parser Stmt := do
  let opening ← expect .openCurly
  let decls ← many TokenKind.startsDeclaration declaration
  let stmts ← many (fun k => k != .closeCurly && k != .eof) stmt
  let _ ← expect .closeCurly
  return .block ⟨opening.span.start, ← lastPosition⟩ decls stmts

/-- Reads an assignment. -/
def assign (expr : Power → Parser Expr) : Parser Stmt := do
  let target ← expect .identifier
  let _ ← expectOr .assignment (complain "expected `:=` after assignment target")
  let value ← expr .default
  let _ ← expect .semicolon
  return .assign ⟨target.span.start, ← lastPosition⟩ target.text value

/-- Reads a conditional.  An `else` belongs to the nearest conditional before it. -/
def conditional (expr : Power → Parser Expr) (stmt : Parser Stmt) : Parser Stmt := do
  let start := (← advance).span.start
  let condition ← expr .default
  let thenBranch ← stmt
  if (← peekKind) = .elseKw then
    let _ ← advance
    let elseBranch ← stmt
    return .ifElse ⟨start, ← lastPosition⟩ condition thenBranch elseBranch
  else return .ifThen ⟨start, ← lastPosition⟩ condition thenBranch

/-- Reads a loop. -/
def loop (expr : Power → Parser Expr) (stmt : Parser Stmt) : Parser Stmt := do
  let start := (← advance).span.start
  let condition ← expr .default
  let body ← stmt
  return .while ⟨start, ← lastPosition⟩ condition body

/-- Reads a return. -/
def returned (expr : Power → Parser Expr) : Parser Stmt := do
  let start := (← advance).span.start
  let value ← expr .default
  let _ ← expect .semicolon
  return .return ⟨start, ← lastPosition⟩ value

/-- Reads a statement of a given form. -/
def form (expr : Power → Parser Expr) (stmt : Parser Stmt) : StmtForm → Parser Stmt
  | .block => block stmt
  | .assign => assign expr
  | .if => conditional expr stmt
  | .while => loop expr stmt
  | .return => returned expr

/-- Rejects a token that begins no statement. -/
def noStatement : Parser Stmt := do
  if (← peekKind).startsDeclaration then
    complain "declarations must come before statements in a block"
  else complain "expected a statement"

/-- Reads a statement that is at most `n` statements deep. -/
def stmtWithin (g : Grammar) : Nat → Parser Stmt
  | 0 => noStatement
  | n + 1 => do
    match g.statement (← peekKind) with
    | none => noStatement
    | some f => form (expr g) (stmtWithin g n) f

/-- Reads a statement. -/
def stmt (g : Grammar) : Parser Stmt := do
  stmtWithin g (← get).remaining

end SimpleLang.Parser
