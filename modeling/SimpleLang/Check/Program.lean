import SimpleLang.Check.Stmt
import SimpleLang.Parse.Program
import SimpleLang.Token.Scan

/-!
# Checking programs

All functions are declared before any body is checked, so functions can call each other whatever
their order.  Globals and main statements come last: bodies do not see the globals.
-/

namespace SimpleLang

namespace Checker

/-- The types of parameters: those written, and new ones where none are. -/
def parameterTypes : List Decl → Checker (List NodeId)
  | [] => return []
  | p :: ps => do
    let type ← onTypes (·.declared p.type)
    return type :: (← parameterTypes ps)

/-- Declares a function, with new types where none are written, and gives its type. -/
def signature (f : FuncDef) : Checker NodeId := do
  let params ← parameterTypes f.params
  let result ← onTypes (·.fresh)
  let type ← onTypes (·.function result params)
  declare f.name type f.span.start
  note (.registered f.name (← display type))
  return type

/-- Declares functions in order. -/
def signatures : List FuncDef → Checker Unit
  | [] => return ()
  | f :: fs => do
    let _ ← signature f
    signatures fs

/-- Declares parameters with their types. -/
def parameters : List Decl → List NodeId → Checker Unit
  | p :: ps, type :: types => do
    declare p.name type p.span.start
    parameters ps types
  | _, _ => return ()

/-- Checks the body of a function against the type that its name has. -/
def function (f : FuncDef) : Checker Unit := do
  let type ← lookup f.name f.span.start
  let (root, node) ← representative type f.span.start
  match node with
  | .function result params =>
    if params.length = f.params.length then
      note (.checkingBody f.name)
      setReturnType (some result)
      andThenAlways
        (withScope do
          parameters f.params params
          stmt f.body)
        (setReturnType none)
    else reject (.arityMismatch params.length f.params.length) f.span.start
  | _ => reject (.notCallable f.name (← display root)) f.span.start

/-- Checks the bodies of functions in order. -/
def functions : List FuncDef → Checker Unit
  | [] => return ()
  | f :: fs => do
    function f
    functions fs

/-- Checks the parts of a program. -/
def items (p : Program) : Checker Unit := do
  note (.registering p.functions.length)
  signatures p.functions
  functions p.functions
  note (.checkingMain p.globals.length p.main.length)
  setReturnType none
  declarations p.globals
  stmts p.main

/-- Checks a program, and logs the outcome. -/
def program (p : Program) : Checker Unit := fun s =>
  match items p s with
  | .ok _ s => note (.wellTyped s.types.varCount) s
  | .error (.rejected d) s => (do note (.failed d); throw (.rejected d) : Checker Unit) s
  | .error (.breach b) s => .error (.breach b) s

end Checker

/-- What checking a program gives: the session it ends in, and the failure if there is one. -/
abbrev Checked := EStateM.Result (Failure Diagnostic) Session Unit

/-- Checks a program. -/
def Program.check (p : Program) : Checked := (Checker.program p).run .initial

/-- Reads and checks the program of a source text. -/
def checkSource (source file : String) : Checked :=
  match Token.scan source file with
  | .error d => .error (.rejected d) .initial
  | .ok tokens =>
    match Program.ofTokens tokens file with
    | .error d => .error (.rejected d) .initial
    | .ok p => p.check

end SimpleLang
