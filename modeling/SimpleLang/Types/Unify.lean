import SimpleLang.Event
import SimpleLang.Failure

/-!
# Making types equal

`Unifier.unify` binds variables so that two types become equal, and fails if that cannot be.
Bindings made before a failure was found stay.  Of two variables the expected one is bound; two
function types are compared by their results first and then by their parameters in order.
-/

namespace SimpleLang

/-- The types found so far, and the log of how they were found. -/
structure Inference where
  /-- The types. -/
  types : TypeStore
  /-- What has happened. -/
  log : Array Event

namespace Inference

/-- Nothing but the constants. -/
def initial : Inference := ⟨.initial, #[]⟩

end Inference

/-- Computations that work on types. -/
abbrev Unifier := EStateM (Failure Problem) Inference

namespace Unifier

/-- Adds an event to the log. -/
def note (e : Event) : Unifier Unit := modify fun i => { i with log := i.log.push e }

/-- Does an operation on the store. -/
def onTypes {α : Type} (f : TypeStore → α × TypeStore) : Unifier α :=
  modifyGet fun i =>
    let (a, types) := f i.types
    (a, { i with types })

/-- Gives what a question about the store answers. -/
def askTypes {α : Type} (f : TypeStore → α) : Unifier α := return f (← get).types

/-- The node with a number. -/
def node (i : NodeId) : Unifier Node := do
  match ← askTypes (·.node? i) with
  | some n => return n
  | none => throw (.breach (.missingNode i))

/-- The representative of a node, with shorter ways to it from now on. -/
def find (i : NodeId) : Unifier NodeId := onTypes (·.find i)

/-- Binds a variable, which must be unbound, to another node. -/
def bindTo (var target : NodeId) : Unifier Unit := do
  if var = target then throw (.breach (.boundToItself var))
  else match ← node var with
    | .var id none =>
      note (.bound id target)
      onTypes fun s => ((), s.set var (.var id (some target)))
    | other => throw (.breach (.notUnbound other))

/-- Makes an unbound variable equal to a type, which must not contain it. -/
def assign (var target : NodeId) : Unifier Unit := do
  let shownVar ← askTypes (·.display var)
  let shownTarget ← askTypes (·.display target)
  if ← askTypes (·.occurs var target) then
    throw (.rejected (.typeMismatch shownVar (shownTarget ++ " (infinite type)")))
  else
    note (.unified shownVar shownTarget)
    bindTo var target

/-- Rejects two types that differ. -/
def mismatch (expected received : NodeId) : Unifier Unit := do
  throw (.rejected (.typeMismatch (← askTypes (·.display expected))
    (← askTypes (·.display received))))

/-- Does something for each pair of members of two lists. -/
def forPairs (f : NodeId → NodeId → Unifier Unit) : List NodeId → List NodeId → Unifier Unit
  | a :: as, b :: bs => do
    f a b
    forPairs f as bs
  | _, _ => return ()

/-- Makes two types equal that are at most `n` levels deep. -/
def unifyWithin : Nat → NodeId → NodeId → Unifier Unit
  | 0, _, _ => throw (.breach .circularType)
  | n + 1, expected, received => do
    let expected ← find expected
    let received ← find received
    if expected = received then return ()
    else if ← askTypes (·.isUnbound expected) then assign expected received
    else if ← askTypes (·.isUnbound received) then assign received expected
    else match ← node expected, ← node received with
      | .constant a, .constant b => if a = b then return () else mismatch expected received
      | .function result params, .function result' params' =>
        if params.length = params'.length then
          unifyWithin n result result'
          forPairs (unifyWithin n) params params'
        else throw (.rejected (.arityMismatch params.length params'.length))
      | _, _ => mismatch expected received

/-- Makes two types equal. -/
def unify (expected received : NodeId) : Unifier Unit := do
  unifyWithin (← askTypes (·.size)) expected received

end Unifier

end SimpleLang
