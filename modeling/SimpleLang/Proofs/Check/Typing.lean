import SimpleLang.Proofs.Types.Substitution
import Mathlib.Data.List.Forall2

/-!
# The typing rules

What it means for a program to be well typed, said without inference.  Every declaration and
every function is given one ground type, and the rules say which choices are right.  A *context*
lists the open scopes, the innermost first; a name has the type that the innermost scope with a
declaration of it gives, and a scope declares no name twice.

The rules for statements carry along the types chosen for the declarations inside, in the order
in which these stand, and the context for what follows: a declaration that stands as a statement
extends the innermost scope.

## Main definitions

* `ExprTyped Γ e τ` : the expression `e` has the type `τ`.
* `StmtTyped ret Γ s τs Γ'` : with the types `τs` for its declarations, the statement `s` is right
  where returns must have the type `ret`, if they may stand there at all; `Γ'` is in force after
  it.
* `ProgramTyped p t Γ` : the program `p` is right with the types `t`; its last context is `Γ`.
-/

namespace SimpleLang

/-- The types of the names that one scope declares. -/
abbrev Frame := String → Option GroundTy

namespace Frame

/-- A scope without declarations. -/
def empty : Frame := fun _ => none

/-- One more declaration. -/
def add (F : Frame) (x : String) (τ : GroundTy) : Frame := fun y => if y = x then some τ else F y

end Frame

/-- The open scopes, the innermost first. -/
abbrev Context := List Frame

/-- The innermost scope that declares a name gives its type. -/
inductive Context.Resolves : Context → String → GroundTy → Prop
  /-- The innermost scope declares it. -/
  | here {F : Frame} {Γ : Context} {x : String} {τ : GroundTy} :
    F x = some τ → Resolves (F :: Γ) x τ
  /-- The innermost scope does not. -/
  | outer {F : Frame} {Γ : Context} {x : String} {τ : GroundTy} :
    F x = none → Resolves Γ x τ → Resolves (F :: Γ) x τ

/-! ### Expressions -/

/-- An operator takes two operands of the first type to a result of the second. -/
inductive BinaryOp.Typed : BinaryOp → GroundTy → GroundTy → Prop
  | add : Typed .add (.base .int) (.base .int)
  | sub : Typed .sub (.base .int) (.base .int)
  | mul : Typed .mul (.base .int) (.base .int)
  | div : Typed .div (.base .int) (.base .int)
  | less : Typed .less (.base .int) (.base .bool)
  | greater : Typed .greater (.base .int) (.base .bool)
  | and : Typed .and (.base .bool) (.base .bool)
  | or : Typed .or (.base .bool) (.base .bool)
  /-- Anything can be compared with what has the same type. -/
  | equal (τ : GroundTy) : Typed .equal τ (.base .bool)

mutual

/-- The type of an expression. -/
inductive ExprTyped (Γ : Context) : Expr → GroundTy → Prop
  /-- A name has the type of its declaration. -/
  | name {span : Span} {x : String} {τ : GroundTy} :
    Γ.Resolves x τ → ExprTyped Γ (.name span x) τ
  /-- An integer literal. -/
  | int {span : Span} {value : Int64} : ExprTyped Γ (.int span value) (.base .int)
  /-- A truth value. -/
  | bool {span : Span} {value : Bool} : ExprTyped Γ (.bool span value) (.base .bool)
  /-- Two operands of the type that the operator takes. -/
  | binary {span : Span} {left right : Expr} {op : BinaryOp} {τ ρ : GroundTy} :
    op.Typed τ ρ → ExprTyped Γ left τ → ExprTyped Γ right τ →
      ExprTyped Γ (.binary span left op right) ρ
  /-- A function takes exactly the types of its arguments. -/
  | call {span : Span} {callee : String} {arguments : List Expr} {τs : List GroundTy}
      {ρ : GroundTy} :
    Γ.Resolves callee (.fn τs ρ) → ArgumentsTyped Γ arguments τs →
      ExprTyped Γ (.call span callee arguments) ρ

/-- The types of arguments. -/
inductive ArgumentsTyped (Γ : Context) : List Expr → List GroundTy → Prop
  | nil : ArgumentsTyped Γ [] []
  | cons {e : Expr} {es : List Expr} {τ : GroundTy} {τs : List GroundTy} :
    ExprTyped Γ e τ → ArgumentsTyped Γ es τs → ArgumentsTyped Γ (e :: es) (τ :: τs)

end

/-! ### Declarations and statements -/

/-- A declaration with a written type can only have that type. -/
def Decl.Allows (d : Decl) (τ : GroundTy) : Prop := ∀ b, d.type = some b → τ = .base b

/-- A declaration of a name that the innermost scope does not declare yet. -/
inductive DeclTyped : Context → Decl → GroundTy → Context → Prop
  | declare {F : Frame} {Γ : Context} {d : Decl} {τ : GroundTy} :
    F d.name = none → d.Allows τ → DeclTyped (F :: Γ) d τ (F.add d.name τ :: Γ)

/-- Declarations in order. -/
inductive DeclsTyped : Context → List Decl → List GroundTy → Context → Prop
  | nil {Γ : Context} : DeclsTyped Γ [] [] Γ
  | cons {Γ Γ₁ Γ₂ : Context} {d : Decl} {ds : List Decl} {τ : GroundTy} {τs : List GroundTy} :
    DeclTyped Γ d τ Γ₁ → DeclsTyped Γ₁ ds τs Γ₂ → DeclsTyped Γ (d :: ds) (τ :: τs) Γ₂

mutual

/-- A statement with types for its declarations, and the context after it. -/
inductive StmtTyped (ret : Option GroundTy) : Context → Stmt → List GroundTy → Context → Prop
  /-- A declaration is in force for what follows. -/
  | decl {Γ Γ' : Context} {span : Span} {d : Decl} {τ : GroundTy} :
    DeclTyped Γ d τ Γ' → StmtTyped ret Γ (.decl span d) [τ] Γ'
  /-- A block is a scope of its own. -/
  | block {Γ Γ₁ Γ₂ : Context} {span : Span} {ds : List Decl} {ss : List Stmt}
      {τs τs' : List GroundTy} :
    DeclsTyped (Frame.empty :: Γ) ds τs Γ₁ → StmtsTyped ret Γ₁ ss τs' Γ₂ →
      StmtTyped ret Γ (.block span ds ss) (τs ++ τs') Γ
  /-- What is assigned has the type of the target. -/
  | assign {Γ : Context} {span : Span} {target : String} {value : Expr} {τ : GroundTy} :
    Γ.Resolves target τ → ExprTyped Γ value τ → StmtTyped ret Γ (.assign span target value) [] Γ
  /-- A condition is a truth value. -/
  | ifThen {Γ Γ' : Context} {span : Span} {c : Expr} {t : Stmt} {τs : List GroundTy} :
    ExprTyped Γ c (.base .bool) → StmtTyped ret Γ t τs Γ' →
      StmtTyped ret Γ (.ifThen span c t) τs Γ'
  /-- The second branch follows the first. -/
  | ifElse {Γ Γ₁ Γ₂ : Context} {span : Span} {c : Expr} {t e : Stmt} {τs τs' : List GroundTy} :
    ExprTyped Γ c (.base .bool) → StmtTyped ret Γ t τs Γ₁ → StmtTyped ret Γ₁ e τs' Γ₂ →
      StmtTyped ret Γ (.ifElse span c t e) (τs ++ τs') Γ₂
  /-- A loop. -/
  | while {Γ Γ' : Context} {span : Span} {c : Expr} {body : Stmt} {τs : List GroundTy} :
    ExprTyped Γ c (.base .bool) → StmtTyped ret Γ body τs Γ' →
      StmtTyped ret Γ (.while span c body) τs Γ'
  /-- A return stands in a function and gives a value of its return type. -/
  | return {Γ : Context} {span : Span} {value : Expr} {ρ : GroundTy} :
    ret = some ρ → ExprTyped Γ value ρ → StmtTyped ret Γ (.return span value) [] Γ

/-- Statements in order. -/
inductive StmtsTyped (ret : Option GroundTy) :
    Context → List Stmt → List GroundTy → Context → Prop
  | nil {Γ : Context} : StmtsTyped ret Γ [] [] Γ
  | cons {Γ Γ₁ Γ₂ : Context} {s : Stmt} {ss : List Stmt} {τs τs' : List GroundTy} :
    StmtTyped ret Γ s τs Γ₁ → StmtsTyped ret Γ₁ ss τs' Γ₂ →
      StmtsTyped ret Γ (s :: ss) (τs ++ τs') Γ₂

end

/-! ### Functions and programs -/

/-- Something for each declaration of a function and for its result. -/
structure FuncTypes (α : Type) where
  /-- For the parameters. -/
  params : List α
  /-- For the result. -/
  result : α
  /-- For the declarations in the body. -/
  locals : List α

/-- Something for each declaration of a program and for each function's result. -/
structure ProgramTypes (α : Type) where
  /-- For the functions. -/
  functions : List (FuncTypes α)
  /-- For the declarations outside of functions. -/
  globals : List α
  /-- For the declarations inside of main statements. -/
  main : List α

namespace FuncTypes

variable {α β : Type}

/-- Applies a function throughout. -/
def map (f : α → β) (t : FuncTypes α) : FuncTypes β :=
  ⟨t.params.map f, f t.result, t.locals.map f⟩

/-- The type of the function itself. -/
def type (t : FuncTypes GroundTy) : GroundTy := .fn t.params t.result

end FuncTypes

/-- Applies a function throughout. -/
def ProgramTypes.map {α β : Type} (f : α → β) (t : ProgramTypes α) : ProgramTypes β :=
  ⟨t.functions.map (FuncTypes.map f), t.globals.map f, t.main.map f⟩

/-- A function's body sees the functions `F` of the program, the parameters and what it declares
itself. -/
inductive FuncTyped (F : Frame) (f : FuncDef) (t : FuncTypes GroundTy) : Prop
  | body {Γ Γ' : Context} :
    DeclsTyped [Frame.empty, F] f.params t.params Γ →
      StmtTyped (some t.result) Γ f.body t.locals Γ' → FuncTyped F f t

/-- The scope `F'` has the functions with their types besides what is in `F`. -/
inductive FuncsDeclared : Frame → List FuncDef → List (FuncTypes GroundTy) → Frame → Prop
  | nil {F : Frame} : FuncsDeclared F [] [] F
  | cons {F F' : Frame} {f : FuncDef} {fs : List FuncDef} {t : FuncTypes GroundTy}
      {ts : List (FuncTypes GroundTy)} :
    F f.name = none → FuncsDeclared (F.add f.name t.type) fs ts F' →
      FuncsDeclared F (f :: fs) (t :: ts) F'

/-- A program with types for its declarations and functions, and the context at its end.  Functions
see each other, whatever their order; only the main statements see the globals. -/
inductive ProgramTyped (p : Program) (t : ProgramTypes GroundTy) : Context → Prop
  | mk {F : Frame} {Γ Γ' : Context} :
    FuncsDeclared Frame.empty p.functions t.functions F →
      List.Forall₂ (FuncTyped F) p.functions t.functions →
      DeclsTyped [F] p.globals t.globals Γ → StmtsTyped none Γ p.main t.main Γ' →
      ProgramTyped p t Γ'

/-- The types make the program well typed. -/
def Program.WellTyped (p : Program) (t : ProgramTypes GroundTy) : Prop := ∃ Γ, ProgramTyped p t Γ

end SimpleLang
