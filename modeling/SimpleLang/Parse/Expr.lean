import SimpleLang.Grammar
import SimpleLang.Parse.Parser
import SimpleLang.Tree

/-!
# Reading expressions

An expression is read by the powers of its operators: after an opening, operators are taken as
long as they bind more tightly than the power asked for, and each reads its right operand at its
own power, which makes operators of one power group to the left.

The pieces of the grammar take the parser for the expressions inside them as an argument;
`Parser.expr` ties the knot.  Every piece consumes a token before it reads an expression inside
it, so the number of tokens bounds the depth.

Integer literals are 64-bit words.  A numeral is an optional sign followed by at least one ASCII
digit, and it is read only if its value fits.
-/

namespace SimpleLang

namespace Text

/-- The value of a run of decimal digits. -/
def digitsValue (cs : List Char) : Nat :=
  cs.foldl (fun n c => 10 * n + (c.toNat - '0'.toNat)) 0

/-- Reads an unsigned numeral: one or more ASCII digits. -/
def readNat? (cs : List Char) : Option Nat :=
  if !cs.isEmpty && cs.all Char.isDigit then some (digitsValue cs) else none

/-- Reads a numeral with an optional sign. -/
def readInt? : List Char → Option Int
  | '+' :: cs => (readNat? cs).map Int.ofNat
  | '-' :: cs => (readNat? cs).map fun n => -Int.ofNat n
  | cs => (readNat? cs).map Int.ofNat

/-- Reads a numeral whose value fits in a 64-bit word. -/
def readInt64? (text : String) : Option Int64 :=
  (readInt? text.toList).bind fun n =>
    if Int64.minValue.toInt ≤ n ∧ n ≤ Int64.maxValue.toInt then some (Int64.ofInt n) else none

end Text

namespace Parser

/-- The operator a kind of token stands for. -/
def operator? : TokenKind → Option BinaryOp
  | .plus => some .add
  | .dash => some .sub
  | .star => some .mul
  | .slash => some .div
  | .equals => some .equal
  | .less => some .less
  | .greater => some .greater
  | .and => some .and
  | .or => some .or
  | _ => none

/-- Reads a literal or a name. -/
def primary : Parser Expr := do
  let t ← peek
  let e ← match t.kind with
    | .number => match Text.readInt64? t.text with
      | some n => pure (.int t.span n)
      | none => throw ⟨.numberParseError t.text, t.span.start⟩
    | .identifier => pure (.name t.span t.text)
    | .trueKw => pure (.bool t.span true)
    | .falseKw => pure (.bool t.span false)
    | _ => unexpected
  let _ ← advance
  return e

/-- Reads an expression in brackets.  The brackets leave no trace in the tree. -/
def grouping (expr : Power → Parser Expr) : Parser Expr := do
  let _ ← advance
  let e ← expr .default
  let _ ← expect .closeParen
  return e

/-- Reads an operator and its right operand. -/
def binary (expr : Power → Parser Expr) (left : Expr) (power : Power) : Parser Expr := do
  match operator? (← peekKind) with
  | none => complain "expected a binary operator"
  | some op =>
    let _ ← advance
    let right ← expr power
    return .binary ⟨left.span.start, right.span.stop⟩ left op right

/-- Reads the arguments of a call. -/
def call (expr : Power → Parser Expr) (left : Expr) : Parser Expr := do
  match left with
  | .name span callee =>
    let _ ← advance
    let arguments ← commaList (expr .default)
    return .call ⟨span.start, ← lastPosition⟩ callee arguments
  | _ => complain "only named functions can be called"

/-- Reads what a token opens. -/
def opened (expr : Power → Parser Expr) : Opening → Parser Expr
  | .primary => primary
  | .grouping => grouping expr

/-- Reads what a token joins to an expression. -/
def joined (expr : Power → Parser Expr) (left : Expr) (power : Power) : Joining → Parser Expr
  | .binary => binary expr left power
  | .call => call expr left

/-- Extends an expression, at most `n` times, by what binds more tightly than `power`. -/
def extendWithin (g : Grammar) (expr : Power → Parser Expr) (power : Power) :
    Nat → Expr → Parser Expr
  | 0, left => return left
  | n + 1, left => do
    match g.joining (← peekKind) with
    | none => return left
    | some (joining, next) =>
      if power < next then extendWithin g expr power n (← joined expr left next joining)
      else return left

/-- Reads an expression that is at most `n` expressions deep. -/
def exprWithin (g : Grammar) : Nat → Power → Parser Expr
  | 0, _ => unexpected
  | n + 1, power => do
    match g.opening (← peekKind) with
    | none => unexpected
    | some opening =>
      let left ← opened (exprWithin g n) opening
      extendWithin g (exprWithin g n) power (← get).remaining left

/-- Reads an expression as long as its operators bind more tightly than `power`. -/
def expr (g : Grammar) (power : Power) : Parser Expr := do
  exprWithin g (← get).remaining power

end Parser

end SimpleLang
