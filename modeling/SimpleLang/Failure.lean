import SimpleLang.Diagnostic
import SimpleLang.Types.Store

/-!
# Failures

A check can fail because the program is wrong, which is a problem to report, or because an
operation was used in a way it does not allow, which is a breach of its contract.  Checking a
program never causes a breach; using the operations one by one can.
-/

namespace SimpleLang

/-- A use of an operation that it does not allow. -/
inductive Breach where
  /-- A scope was left when none was open. -/
  | exitWithoutScope
  /-- A name was declared when no scope was open. -/
  | declareWithoutScope
  /-- A node was to be bound to itself. -/
  | boundToItself (node : NodeId)
  /-- A node was to be bound that is not an unbound variable. -/
  | notUnbound (node : Node)
  /-- There is no such node. -/
  | missingNode (node : NodeId)
  /-- Types that contain themselves were compared. -/
  | circularType
  deriving DecidableEq, Repr

namespace Breach

/-- The breach in words. -/
def message : Breach → String
  | .exitWithoutScope => "exit_scope called with no open scope"
  | .declareWithoutScope => "declare called with no open scope"
  | .boundToItself i =>
    "assertion `left != right` failed: a type variable cannot be bound to itself\n  left: " ++
      (Node.idOutline i).compact ++ "\n right: " ++ (Node.idOutline i).compact
  | .notUnbound node =>
    "bind called on a node that is not an unbound variable: " ++ node.outline.compact
  | .missingNode i => "there is no node " ++ toString i
  | .circularType => "a type contains itself"

end Breach

/-- Why an operation failed. -/
inductive Failure (ε : Type) where
  /-- The program is wrong. -/
  | rejected (error : ε)
  /-- The operation was not allowed. -/
  | breach (breach : Breach)
  deriving DecidableEq, Repr

namespace Failure

/-- The same failure with another account of what is wrong with the program. -/
def map {ε δ : Type} (f : ε → δ) : Failure ε → Failure δ
  | .rejected e => .rejected (f e)
  | .breach b => .breach b

end Failure

end SimpleLang
