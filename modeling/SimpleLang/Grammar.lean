import SimpleLang.Token

/-!
# Grammar tables

What a token of each kind can do where an expression or a statement is read.  An expression
begins with a token that *opens* it and goes on over tokens that *join* it to more text, as long
as they bind more tightly than what stands around it.
-/

namespace SimpleLang

/-- How tightly an operator binds, from the loosest. -/
inductive Power where
  | default | logical | relational | additive | multiplicative | call | primary
  deriving DecidableEq, Repr

namespace Power

/-- The powers by strength. -/
def rank : Power → Nat
  | .default => 0
  | .logical => 1
  | .relational => 2
  | .additive => 3
  | .multiplicative => 4
  | .call => 5
  | .primary => 6

/-- The name of a power. -/
def name : Power → String
  | .default => "Default"
  | .logical => "Logical"
  | .relational => "Relational"
  | .additive => "Additive"
  | .multiplicative => "Multiplicative"
  | .call => "Call"
  | .primary => "Primary"

/-- Every power, from the loosest. -/
def all : List Power :=
  [.default, .logical, .relational, .additive, .multiplicative, .call, .primary]

instance : LT Power := ⟨fun p q => p.rank < q.rank⟩

instance (p q : Power) : Decidable (p < q) := inferInstanceAs (Decidable (p.rank < q.rank))

end Power

/-- How a token opens an expression. -/
inductive Opening where
  /-- By itself: a literal or a name. -/
  | primary
  /-- As the bracket before an expression. -/
  | grouping
  deriving DecidableEq, Repr

/-- How a token joins an expression to what follows. -/
inductive Joining where
  /-- As an operator before its right operand. -/
  | binary
  /-- As the bracket before the arguments of a call. -/
  | call
  deriving DecidableEq, Repr

/-- The forms of statement. -/
inductive StmtForm where
  | block | assign | if | while | return
  deriving DecidableEq, Repr

/-- What each kind of token can do. -/
structure Grammar where
  /-- The form of statement that begins with a kind of token. -/
  statement : TokenKind → Option StmtForm
  /-- How a kind of token opens an expression. -/
  opening : TokenKind → Option Opening
  /-- How, and how tightly, a kind of token joins an expression to what follows. -/
  joining : TokenKind → Option (Joining × Power)

namespace Grammar

/-- The tables without an entry. -/
def empty : Grammar := ⟨fun _ => none, fun _ => none, fun _ => none⟩

/-- The tables of the language. -/
def standard : Grammar where
  statement
    | .openCurly => some .block
    | .identifier => some .assign
    | .ifKw => some .if
    | .whileKw => some .while
    | .returnKw => some .return
    | _ => none
  opening
    | .number | .identifier | .trueKw | .falseKw => some .primary
    | .openParen => some .grouping
    | _ => none
  joining
    | .and | .or => some (.binary, .logical)
    | .less | .greater | .equals => some (.binary, .relational)
    | .plus | .dash => some (.binary, .additive)
    | .star | .slash => some (.binary, .multiplicative)
    | .openParen => some (.call, .call)
    | _ => none

/-- The tables with another entry for statements that begin with `kind`. -/
def setStatement (g : Grammar) (kind : TokenKind) (form : StmtForm) : Grammar :=
  { g with statement := fun k => if k = kind then some form else g.statement k }

/-- The tables with another entry for expressions that `kind` opens. -/
def setOpening (g : Grammar) (kind : TokenKind) (opening : Opening) : Grammar :=
  { g with opening := fun k => if k = kind then some opening else g.opening k }

/-- The tables with another entry for expressions that `kind` joins to what follows. -/
def setJoining (g : Grammar) (kind : TokenKind) (joining : Joining) (power : Power) : Grammar :=
  { g with joining := fun k => if k = kind then some (joining, power) else g.joining k }

end Grammar

end SimpleLang
