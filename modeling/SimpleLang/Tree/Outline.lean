import SimpleLang.Tree

/-!
# Outlines of programs

How programs are shown when a tree is asked for.
-/

namespace SimpleLang

/-- The outline of a written type. -/
def BaseType.outline : BaseType → Outline
  | .int => .word "Integer"
  | .bool => .word "Boolean"

/-- The outline of an operator. -/
def BinaryOp.outline : BinaryOp → Outline
  | .add => .word "Add"
  | .sub => .word "Sub"
  | .mul => .word "Mul"
  | .div => .word "Div"
  | .equal => .word "Equal"
  | .less => .word "Less"
  | .greater => .word "Greater"
  | .and => .word "And"
  | .or => .word "Or"

namespace Expr

/-- An expression's outline, given that of what it is apart from its span. -/
def outlineWith (span : Span) (kind : Outline) : Outline :=
  .record "Expr" [("kind", kind), ("span", span.outline)]

mutual

/-- The outline of an expression. -/
def outline : Expr → Outline
  | .name s x => outlineWith s (.tuple "Identifier" [.text x])
  | .int s n => outlineWith s (.tuple "Integer" [.word (toString n.toInt)])
  | .bool s b => outlineWith s (.tuple "Boolean" [.word (if b then "true" else "false")])
  | .binary s l op r =>
    outlineWith s
      (.record "Binary" [("left", l.outline), ("operator", op.outline), ("right", r.outline)])
  | .call s f args =>
    outlineWith s (.record "Call" [("name", .text f), ("arguments", .list (outlines args))])

/-- The outlines of some expressions. -/
def outlines : List Expr → List Outline
  | [] => []
  | e :: es => e.outline :: outlines es

end

end Expr

/-- The outline of a declaration. -/
def Decl.outline (d : Decl) : Outline :=
  .record "VarDecl"
    [("name", .text d.name), ("declared_type", .option (d.type.map BaseType.outline)),
      ("span", d.span.outline)]

namespace Stmt

/-- A statement's outline, given that of what it is apart from its span. -/
def outlineWith (span : Span) (kind : Outline) : Outline :=
  .record "Stmt" [("kind", kind), ("span", span.outline)]

/-- The outline of a conditional, given those of its branches. -/
def outlineIf (condition : Expr) (thenBranch : Outline) (elseBranch : Option Outline) : Outline :=
  .record "If"
    [("condition", condition.outline), ("then_branch", thenBranch),
      ("else_branch", .option elseBranch)]

mutual

/-- The outline of a statement. -/
def outline : Stmt → Outline
  | .decl s d => outlineWith s (.tuple "VarDecl" [d.outline])
  | .block s ds ss =>
    outlineWith s
      (.record "Block"
        [("declarations", .list (ds.map Decl.outline)), ("statements", .list (outlines ss))])
  | .assign s x e => outlineWith s (.record "Assign" [("target", .text x), ("value", e.outline)])
  | .ifThen s c t => outlineWith s (outlineIf c t.outline none)
  | .ifElse s c t e => outlineWith s (outlineIf c t.outline (some e.outline))
  | .while s c b => outlineWith s (.record "While" [("condition", c.outline), ("body", b.outline)])
  | .return s e => outlineWith s (.record "Return" [("value", e.outline)])

/-- The outlines of some statements. -/
def outlines : List Stmt → List Outline
  | [] => []
  | s :: ss => s.outline :: outlines ss

end

end Stmt

/-- The outline of a function definition. -/
def FuncDef.outline (f : FuncDef) : Outline :=
  .record "FuncDef"
    [("name", .text f.name), ("params", .list (f.params.map Decl.outline)),
      ("body", f.body.outline), ("span", f.span.outline)]

/-- The outline of a program. -/
def Program.outline (p : Program) : Outline :=
  .record "Program"
    [("functions", .list (p.functions.map FuncDef.outline)),
      ("globals", .list (p.globals.map Decl.outline)), ("main", .list (p.main.map Stmt.outline))]

end SimpleLang
