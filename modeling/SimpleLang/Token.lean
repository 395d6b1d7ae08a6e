import SimpleLang.Source.Reader

/-!
# Tokens

The kinds of token of the language, and a token as its kind, its text and the span it covers.
-/

namespace SimpleLang

/-- The kinds of token. -/
inductive TokenKind where
  | eof | number | identifier
  | openCurly | closeCurly | openParen | closeParen
  | assignment | equals | less | greater | or | and
  | semicolon | comma
  | plus | dash | slash | star
  | funcKw | varKw | intKw | boolKw | trueKw | falseKw | ifKw | elseKw | whileKw | returnKw
  deriving DecidableEq, Repr

namespace TokenKind

/-- Every kind of token, in the order in which they are listed. -/
def all : List TokenKind :=
  [.eof, .number, .identifier, .openCurly, .closeCurly, .openParen, .closeParen, .assignment,
    .equals, .less, .greater, .or, .and, .semicolon, .comma, .plus, .dash, .slash, .star, .funcKw,
    .varKw, .intKw, .boolKw, .trueKw, .falseKw, .ifKw, .elseKw, .whileKw, .returnKw]

/-- The name of a kind. -/
def name : TokenKind → String
  | .eof => "EOF"
  | .number => "Number"
  | .identifier => "Identifier"
  | .openCurly => "OpenCurly"
  | .closeCurly => "CloseCurly"
  | .openParen => "OpenParen"
  | .closeParen => "CloseParen"
  | .assignment => "Assignment"
  | .equals => "Equals"
  | .less => "Less"
  | .greater => "Greater"
  | .or => "Or"
  | .and => "And"
  | .semicolon => "Semicolon"
  | .comma => "Comma"
  | .plus => "Plus"
  | .dash => "Dash"
  | .slash => "Slash"
  | .star => "Star"
  | .funcKw => "Func"
  | .varKw => "Var"
  | .intKw => "Int"
  | .boolKw => "Bool"
  | .trueKw => "True"
  | .falseKw => "False"
  | .ifKw => "If"
  | .elseKw => "Else"
  | .whileKw => "While"
  | .returnKw => "Return"

/-- Whether a declaration begins with this kind of token. -/
def startsDeclaration : TokenKind → Bool
  | .varKw | .intKw | .boolKw => true
  | _ => false

/-- The reserved words and their kinds. -/
def reserved : List (List Char × TokenKind) :=
  [(['f', 'u', 'n', 'c'], .funcKw), (['v', 'a', 'r'], .varKw), (['i', 'n', 't'], .intKw),
    (['b', 'o', 'o', 'l'], .boolKw), (['t', 'r', 'u', 'e'], .trueKw),
    (['f', 'a', 'l', 's', 'e'], .falseKw), (['i', 'f'], .ifKw), (['e', 'l', 's', 'e'], .elseKw),
    (['w', 'h', 'i', 'l', 'e'], .whileKw), (['r', 'e', 't', 'u', 'r', 'n'], .returnKw)]

/-- The kind of a word: its own if it is reserved, else that of identifiers. -/
def ofWord (word : List Char) : TokenKind := (reserved.lookup word).getD .identifier

/-- The operators and the punctuation. -/
def symbols : List (List Char × TokenKind) :=
  [(['{'], .openCurly), (['}'], .closeCurly), (['('], .openParen), ([')'], .closeParen),
    ([':', '='], .assignment), (['='], .equals), (['<'], .less), (['>'], .greater),
    (['|', '|'], .or), (['&', '&'], .and), ([';'], .semicolon), ([','], .comma), (['+'], .plus),
    (['-'], .dash), (['/'], .slash), (['*'], .star)]

end TokenKind

/-- A token. -/
structure Token where
  /-- The token's kind. -/
  kind : TokenKind
  /-- The token's text. -/
  text : String
  /-- The stretch of source it covers. -/
  span : Span
  deriving DecidableEq, Repr

namespace Token

/-- The token that ends every list of tokens, at the position where the text ends. -/
def endOfInput (p : Position) : Token := ⟨.eof, "EOF", ⟨p, p⟩⟩

/-- A token's kind and text over three lines. -/
def describe (t : Token) : String :=
  r"Token {" ++ "\nkind: " ++ t.kind.name ++ ",\nvalue: " ++ t.text ++ r"}"

/-- The outline of a token. -/
def outline (t : Token) : Outline :=
  .record "Token"
    [("kind", .word t.kind.name), ("value", .text t.text), ("span", t.span.outline)]

end Token

end SimpleLang
