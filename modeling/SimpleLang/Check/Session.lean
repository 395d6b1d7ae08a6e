import SimpleLang.Scope
import SimpleLang.Types.Unify

/-!
# Checking sessions

The state of a check, and the steps that checks are made of.  A step that fails leaves what it
did before in place.
-/

namespace SimpleLang

/-- The state of a check. -/
structure Session extends Inference where
  /-- The declarations in force, by the nodes of their types. -/
  scopes : Scopes NodeId
  /-- The return type of the function whose body is being checked. -/
  returnType : Option NodeId

namespace Session

/-- A session in which nothing has been checked. -/
def initial : Session := ⟨.initial, .initial, none⟩

/-- The declarations of the outermost scope with their types as shown, sorted by name. -/
def globalTypes (s : Session) : List (String × String) :=
  s.scopes.globals.map fun (name, type) => (name, s.types.display type)

/-- The type of a name in the innermost scope, as shown. -/
def typeOf? (s : Session) (name : String) : Option String :=
  (s.scopes.lookup? name).map s.types.display

end Session

/-- Computations that check a part of a program. -/
abbrev Checker := EStateM (Failure Diagnostic) Session

namespace Checker

/-- Rejects the program. -/
def reject {α : Type} (problem : Problem) (position : Position) : Checker α :=
  throw (.rejected ⟨problem, position⟩)

/-- Does work on types.  A problem that it meets is reported at `position`. -/
def infer {α : Type} (position : Position) (work : Unifier α) : Checker α := fun s =>
  match work s.toInference with
  | .ok a i => .ok a { s with toInference := i }
  | .error e i => .error (e.map (⟨·, position⟩)) { s with toInference := i }

/-- Adds an event to the log. -/
def note (e : Event) : Checker Unit := modify fun s => { s with log := s.log.push e }

/-- Does an operation on the store of types. -/
def onTypes {α : Type} (f : TypeStore → α × TypeStore) : Checker α :=
  modifyGet fun s =>
    let (a, types) := f s.types
    (a, { s with types })

/-- A type as it is shown. -/
def display (type : NodeId) : Checker String := return (← get).types.display type

/-- Makes two types equal; if they cannot be, that is reported at `position`. -/
def unify (expected received : NodeId) (position : Position) : Checker Unit :=
  infer position (Unifier.unify expected received)

/-- The node that represents a type, and its number. -/
def representative (type : NodeId) (position : Position) : Checker (NodeId × Node) :=
  infer position do
    let root ← Unifier.find type
    return (root, ← Unifier.node root)

/-- Opens a scope. -/
def enterScope : Checker Unit := do
  modify fun s => { s with scopes := s.scopes.enter }
  note (.scopeEntered (← get).scopes.depth)

/-- Closes the innermost scope. -/
def exitScope : Checker Unit := do
  match (← get).scopes.exit? with
  | none => throw (.breach .exitWithoutScope)
  | some outer =>
    modify fun s => { s with scopes := outer }
    note (.scopeExited outer.depth)

/-- Does something and, unless a contract was broken, something else after it, whether or not the
program was found wrong. -/
def andThenAlways {α : Type} (work : Checker α) (after : Checker Unit) : Checker α := fun s =>
  match work s with
  | .ok a s => (do after; return a : Checker α) s
  | .error (.rejected d) s => (do after; throw (.rejected d) : Checker α) s
  | .error (.breach b) s => .error (.breach b) s

/-- Does something in a scope of its own, which is closed whether or not the program is found
wrong there. -/
def withScope {α : Type} (work : Checker α) : Checker α := do
  enterScope
  andThenAlways work exitScope

/-- Declares a name in the innermost scope. -/
def declare (name : String) (type : NodeId) (position : Position) : Checker Unit := do
  match (← get).scopes.declare name type with
  | .ok scopes => modify fun s => { s with scopes }
  | .error .noScope => throw (.breach .declareWithoutScope)
  | .error .duplicate => reject (.duplicateDeclaration name) position

/-- The type of a name. -/
def lookup (name : String) (position : Position) : Checker NodeId := do
  match (← get).scopes.lookup? name with
  | some type => return type
  | none => reject (.undeclaredName name) position

/-- Sets the return type that the returns that follow must have. -/
def setReturnType (type : Option NodeId) : Checker Unit :=
  modify fun s => { s with returnType := type }

end Checker

end SimpleLang
