/-!
# Scopes

The declarations in force, in nested scopes.  A name can be declared once in each scope, and the
innermost scope that declares it gives its meaning.
-/

namespace SimpleLang

/-- Open scopes, the innermost first, and in each the declarations, the newest first. -/
structure Scopes (α : Type) where
  /-- The declarations of each scope. -/
  stack : List (List (String × α))
  deriving DecidableEq, Repr

/-- Why a name cannot be declared. -/
inductive DeclareError where
  /-- No scope is open. -/
  | noScope
  /-- The innermost scope declares the name already. -/
  | duplicate
  deriving DecidableEq, Repr

namespace Scopes

variable {α : Type}

/-- One open scope without declarations. -/
def initial : Scopes α := ⟨[[]]⟩

/-- The number of open scopes. -/
def depth (s : Scopes α) : Nat := s.stack.length

/-- Opens a scope. -/
def enter (s : Scopes α) : Scopes α := ⟨[] :: s.stack⟩

/-- Closes the innermost scope, if one is open. -/
def exit? (s : Scopes α) : Option (Scopes α) :=
  match s.stack with
  | [] => none
  | _ :: outer => some ⟨outer⟩

/-- Declares a name in the innermost scope. -/
def declare (s : Scopes α) (name : String) (value : α) : Except DeclareError (Scopes α) :=
  match s.stack with
  | [] => .error .noScope
  | scope :: outer =>
    if (scope.lookup name).isSome then .error .duplicate
    else .ok ⟨((name, value) :: scope) :: outer⟩

/-- The meaning of a name. -/
def lookup? (s : Scopes α) (name : String) : Option α := s.stack.findSome? (·.lookup name)

/-- Puts a declaration into a list that is sorted by name. -/
def insertByName (d : String × α) : List (String × α) → List (String × α)
  | [] => [d]
  | e :: es => if d.1 ≤ e.1 then d :: e :: es else e :: insertByName d es

/-- Declarations sorted by name, in the order of code points. -/
def sortByName (ds : List (String × α)) : List (String × α) := ds.foldr insertByName []

/-- The declarations of the outermost scope, sorted by name. -/
def globals (s : Scopes α) : List (String × α) := sortByName (s.stack.getLast?.getD [])

end Scopes

end SimpleLang
