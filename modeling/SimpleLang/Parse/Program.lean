import SimpleLang.Parse.Stmt

/-!
# Reading programs

A program is a list of items in any order: functions, declarations and statements.
-/

namespace SimpleLang

/-- A top-level part of a program. -/
inductive Item where
  /-- A function definition. -/
  | function (f : FuncDef)
  /-- A declaration of a global variable. -/
  | global (d : Decl)
  /-- A statement of the main sequence. -/
  | main (s : Stmt)
  deriving Repr

namespace Item

/-- The function definition that an item is. -/
def function? : Item → Option FuncDef
  | .function f => some f
  | _ => none

/-- The declaration that an item is. -/
def global? : Item → Option Decl
  | .global d => some d
  | _ => none

/-- The statement that an item is. -/
def main? : Item → Option Stmt
  | .main s => some s
  | _ => none

end Item

/-- The program made of some items, each sort in the order given. -/
def Program.ofItems (items : List Item) : Program where
  functions := items.filterMap Item.function?
  globals := items.filterMap Item.global?
  main := items.filterMap Item.main?

namespace Parser

/-- Reads a function definition. -/
def function (g : Grammar) : Parser FuncDef := do
  let keyword ← expect .funcKw
  let name ← expect .identifier
  let _ ← expect .openParen
  let params ← commaList typedName
  let body ← stmt g
  return ⟨name.text, params, body, ⟨keyword.span.start, ← lastPosition⟩⟩

/-- Reads an item. -/
def item (g : Grammar) : Parser Item := do
  let kind ← peekKind
  if kind = .funcKw then return .function (← function g)
  else if kind.startsDeclaration then return .global (← declaration)
  else return .main (← stmt g)

/-- Reads items up to the end of input. -/
def program (g : Grammar) : Parser Program :=
  return .ofItems (← many (· != .eof) (item g))

end Parser

/-- The program that a list of tokens spells, and the place where reading it ended. -/
def Program.read (tokens : List Token) (file : String) :
    EStateM.Result Diagnostic Cursor Program :=
  (Parser.program .standard).run (.start file tokens)

/-- The program that a list of tokens spells. -/
def Program.ofTokens (tokens : List Token) (file : String) : Except Diagnostic Program :=
  match Program.read tokens file with
  | .ok p _ => .ok p
  | .error d _ => .error d

end SimpleLang
