import SimpleLang.Diagnostic
import SimpleLang.Types.Store

/-!
# The log

What happens during a check, step by step, with the words in which it is logged.
-/

namespace SimpleLang

/-- How much detail an event is. -/
inductive LogLevel where
  | debug | trace
  deriving DecidableEq, Repr

namespace LogLevel

/-- The name of a level. -/
def name : LogLevel → String
  | .debug => "DEBUG"
  | .trace => "TRACE"

end LogLevel

/-- A step of a check. -/
inductive Event where
  /-- A variable was bound to a node. -/
  | bound (id : Nat) (target : NodeId)
  /-- A variable was made equal to a type; both as shown. -/
  | unified (var target : String)
  /-- A scope was opened; the depth is the one after it. -/
  | scopeEntered (depth : Nat)
  /-- A scope was closed; the depth is the one after it. -/
  | scopeExited (depth : Nat)
  /-- A function was declared with a type. -/
  | registered (name type : String)
  /-- The body of a function comes next. -/
  | checkingBody (name : String)
  /-- The signatures of a program's functions come next. -/
  | registering (functions : Nat)
  /-- The globals and the main statements of a program come next. -/
  | checkingMain (globals statements : Nat)
  /-- A program was accepted. -/
  | wellTyped (varCount : Nat)
  /-- A program was rejected. -/
  | failed (diagnostic : Diagnostic)
  deriving DecidableEq, Repr

namespace Event

/-- The level of an event: bindings and scopes are the finer detail. -/
def level : Event → LogLevel
  | .bound _ _ | .scopeEntered _ | .scopeExited _ => .trace
  | _ => .debug

/-- The event in words. -/
def text : Event → String
  | .bound id target => "bind t" ++ toString id ++ " := node " ++ toString target
  | .unified var target => "unify: " ++ var ++ " := " ++ target
  | .scopeEntered depth => "enter scope (depth " ++ toString depth ++ ")"
  | .scopeExited depth => "exit scope (depth " ++ toString depth ++ ")"
  | .registered name type => "registered `" ++ name ++ "`: " ++ type
  | .checkingBody name => "checking body of `" ++ name ++ "`"
  | .registering functions => "registering " ++ toString functions ++ " function signatures"
  | .checkingMain globals statements =>
    "checking " ++ toString globals ++ " globals and " ++ toString statements ++
      " main statements"
  | .wellTyped varCount =>
    "program is well-typed (" ++ toString varCount ++ " type variables)"
  | .failed diagnostic => "type check failed: " ++ diagnostic.text

end Event

end SimpleLang
