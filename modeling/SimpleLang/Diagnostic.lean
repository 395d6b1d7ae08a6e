import SimpleLang.Source.Reader

/-!
# Problems and diagnostics

A `Problem` is what can be wrong with a program, apart from where.  Each has a name, a message
for the record and, with one exception, a tip for whoever wrote the program.  A `Diagnostic` is a
problem and the position it is reported at.
-/

namespace SimpleLang

/-- What is wrong with a program. -/
inductive Problem where
  /-- No token begins with this character. -/
  | unrecognisedToken (token : String)
  /-- A token that cannot stand where it does. -/
  | unexpectedToken (token : String)
  /-- A token that cannot stand where it does, with a word on what could. -/
  | unexpectedTokenDetailed (token message : String)
  /-- A numeral that does not fit in a word. -/
  | numberParseError (token : String)
  /-- Two types that cannot be made equal. -/
  | typeMismatch (expected received : String)
  /-- A wrong number of arguments. -/
  | arityMismatch (expected received : Nat)
  /-- A call of something that is no function. -/
  | notCallable (name found : String)
  /-- A name that no open scope declares. -/
  | undeclaredName (name : String)
  /-- A name declared twice in one scope. -/
  | duplicateDeclaration (name : String)
  /-- A `return` outside of a function. -/
  | returnOutsideFunction
  deriving DecidableEq, Repr

namespace Problem

/-- The problem's name. -/
def name : Problem → String
  | .unrecognisedToken _ => "UnrecognisedToken"
  | .unexpectedToken _ => "UnexpectedToken"
  | .unexpectedTokenDetailed _ _ => "UnexpectedTokenDetailed"
  | .numberParseError _ => "NumberParseError"
  | .typeMismatch _ _ => "TypeMismatch"
  | .arityMismatch _ _ => "ArityMismatch"
  | .notCallable _ _ => "NotCallable"
  | .undeclaredName _ => "UndeclaredName"
  | .duplicateDeclaration _ => "DuplicateDeclaration"
  | .returnOutsideFunction => "ReturnOutsideFunction"

/-- The problem in one sentence. -/
def message : Problem → String
  | .unrecognisedToken token => "unrecognised token: " ++ Text.quoted token
  | .unexpectedToken token => "unexpected token: " ++ Text.quoted token
  | .unexpectedTokenDetailed token message =>
    "unexpected token (" ++ Text.quoted message ++ "): " ++ Text.quoted token
  | .numberParseError token => "error parsing number: " ++ Text.quoted token
  | .typeMismatch expected received =>
    "type mismatch: expected " ++ expected ++ ", received " ++ received
  | .arityMismatch expected received =>
    "arity mismatch: expected " ++ toString expected ++ " parameters, received " ++
      toString received
  | .notCallable name found => Text.quoted name ++ " is not a function (found " ++ found ++ ")"
  | .undeclaredName name => Text.quoted name ++ " not declared"
  | .duplicateDeclaration name => Text.quoted name ++ " already declared in this scope"
  | .returnOutsideFunction => "return statement outside of a function body"

/-- Advice on the problem.  There is none on a character that begins no token. -/
def tip : Problem → Option String
  | .unrecognisedToken _ => none
  | .unexpectedToken token =>
    some ("Unexpected token: `" ++ token ++ "`, did you miss a semicolon?")
  | .unexpectedTokenDetailed token message =>
    some ("Unexpected token: `" ++ token ++ "`, " ++ message)
  | .numberParseError token =>
    some ("Invalid number: `" ++ token ++ "`, is it above the integer limit?")
  | .typeMismatch expected received =>
    some ("Expected type `" ++ expected ++ "`, received `" ++ received ++ "`")
  | .arityMismatch expected received =>
    some ("Expected " ++ toString expected ++ " arguments, received " ++ toString received)
  | .notCallable name found =>
    some ("`" ++ name ++ "` has type `" ++ found ++ "` and cannot be called")
  | .undeclaredName name => some ("Name `" ++ name ++ "` not declared")
  | .duplicateDeclaration name => some ("Name `" ++ name ++ "` already declared in this scope")
  | .returnOutsideFunction => some "Return statements are only allowed inside a function body"

/-- The labelled parts of a problem. -/
def fields : Problem → List (String × Outline)
  | .unrecognisedToken token => [("token", .text token)]
  | .unexpectedToken token => [("token", .text token)]
  | .unexpectedTokenDetailed token message => [("token", .text token), ("message", .text message)]
  | .numberParseError token => [("token", .text token)]
  | .typeMismatch expected received => [("expected", .text expected), ("received", .text received)]
  | .arityMismatch expected received =>
    [("expected", .number expected), ("received", .number received)]
  | .notCallable name found => [("name", .text name), ("found", .text found)]
  | .undeclaredName name => [("name", .text name)]
  | .duplicateDeclaration name => [("name", .text name)]
  | .returnOutsideFunction => []

/-- The outline of a problem: its name, with its parts if it has any. -/
def outline (p : Problem) : Outline :=
  if p.fields.isEmpty then .word p.name else .record p.name p.fields

end Problem

/-- A problem at a position. -/
structure Diagnostic where
  /-- What is wrong. -/
  problem : Problem
  /-- Where. -/
  position : Position
  deriving DecidableEq, Repr

namespace Diagnostic

/-- The diagnostic on one line: the message, then file and offset. -/
def text (d : Diagnostic) : String :=
  d.problem.message ++ " at " ++ d.position.file ++ ":" ++ toString d.position.offset.toNat

/-- The outline of a diagnostic. -/
def outline (d : Diagnostic) : Outline :=
  .record "Error"
    [("internal_error", d.problem.outline), ("position", d.position.outline)]

end Diagnostic

end SimpleLang
