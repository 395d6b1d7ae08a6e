import SimpleLang.Diagnostic
import SimpleLang.Token

/-!
# Reading tokens

A cursor is a place in a list of tokens and always has a current token.  The list it moves over
ends with a token for the end of input, and the cursor never moves past the last token.

A parser consumes tokens from a cursor and gives a value or a diagnostic.  A diagnostic leaves
the cursor where it was found.
-/

namespace SimpleLang

/-- A place in a list of tokens. -/
structure Cursor where
  /-- The tokens already consumed, the last one first. -/
  before : List Token
  /-- The current token. -/
  current : Token
  /-- The tokens to come. -/
  after : List Token
  /-- The file named where no token can name one. -/
  file : String

namespace Cursor

/-- The position where a list of tokens ends. -/
def endPosition (file : String) (tokens : List Token) : Position :=
  match tokens.getLast? with
  | some t => t.span.stop
  | none => ⟨0, file⟩

/-- A list of tokens with an end of input, which is added unless it is there already. -/
def terminate (file : String) (tokens : List Token) : List Token :=
  if tokens.getLast?.map Token.kind = some .eof then tokens
  else tokens ++ [.endOfInput (endPosition file tokens)]

/-- The beginning of a list of tokens. -/
def start (file : String) (tokens : List Token) : Cursor :=
  match terminate file tokens with
  | [] => ⟨[], .endOfInput ⟨0, file⟩, [], file⟩
  | t :: ts => ⟨[], t, ts, file⟩

/-- The number of tokens that are not consumed. -/
def remaining (c : Cursor) : Nat := c.after.length + 1

/-- The number of tokens consumed. -/
def index (c : Cursor) : Nat := c.before.length

/-- The next place, or the same at the last token. -/
def next (c : Cursor) : Cursor :=
  match c.after with
  | [] => c
  | t :: ts => { c with before := c.current :: c.before, current := t, after := ts }

/-- Where the last consumed token ended. -/
def lastPosition (c : Cursor) : Position :=
  match c.before with
  | [] => ⟨0, c.file⟩
  | t :: _ => t.span.stop

/-- Whether there is a token before the end of input. -/
def hasTokens (c : Cursor) : Bool := c.current.kind != .eof

end Cursor

/-- Computations that consume tokens. -/
abbrev Parser := EStateM Diagnostic Cursor

namespace Parser

/-- The current token. -/
def peek : Parser Token := return (← get).current

/-- The kind of the current token. -/
def peekKind : Parser TokenKind := return (← get).current.kind

/-- Where the current token starts. -/
def position : Parser Position := return (← get).current.span.start

/-- Where the last consumed token ended. -/
def lastPosition : Parser Position := return (← get).lastPosition

/-- Consumes the current token. -/
def advance : Parser Token := modifyGet fun c => (c.current, c.next)

/-- Rejects the current token. -/
def unexpected {α : Type} : Parser α := do
  let t ← peek
  throw ⟨.unexpectedToken t.text, t.span.start⟩

/-- Rejects the current token, saying why. -/
def complain {α : Type} (message : String) : Parser α := do
  let t ← peek
  throw ⟨.unexpectedTokenDetailed t.text message, t.span.start⟩

/-- Consumes a token of a kind, or does `otherwise` at any other. -/
def expectOr (kind : TokenKind) (otherwise : Parser Token) : Parser Token := do
  if (← peekKind) = kind then advance else otherwise

/-- Consumes a token of a kind. -/
def expect (kind : TokenKind) : Parser Token := expectOr kind unexpected

/-- Reads items, at most `n`, as long as the current token passes a test. -/
def manyWithin {α : Type} (test : TokenKind → Bool) (item : Parser α) : Nat → Parser (List α)
  | 0 => return []
  | n + 1 => do
    if test (← peekKind) then
      let x ← item
      return x :: (← manyWithin test item n)
    else return []

/-- Reads items as long as the current token passes a test.  Every item consumes a token, so
there are no more of them than tokens. -/
def many {α : Type} (test : TokenKind → Bool) (item : Parser α) : Parser (List α) := do
  manyWithin test item (← get).remaining

/-- Reads items divided by commas and ended by a closing bracket; there may be none. -/
def commaList {α : Type} (item : Parser α) : Parser (List α) := do
  let items ←
    if (← peekKind) = .closeParen then pure []
    else do
      let x ← item
      pure (x :: (← many (· == .comma) (do let _ ← advance; item)))
  let _ ← expect .closeParen
  return items

end Parser

end SimpleLang
