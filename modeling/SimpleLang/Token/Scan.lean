import SimpleLang.Diagnostic
import SimpleLang.Token

/-!
# From text to tokens

The characters of a source text fall into lexemes: words, runs of digits, operators and
punctuation, and between them the layout, that is white space and comments.  A lexeme is taken
off the front of a text, as long as it can be, by `Lexeme.first?`; `Lexeme.split` takes off one
after another until none is left or none fits.

* `Lexeme.first?_text`: what is taken off and what is left make up the text;
* `Lexeme.first?_length`: something is taken off, so splitting ends.

`Token.scan` gives the tokens of a source text, ended by the token for the end of input, or the
first character that no lexeme begins with.
-/

namespace SimpleLang

/-- A piece of source text. -/
structure Lexeme where
  /-- The kind of token it makes, or nothing for layout. -/
  kind : Option TokenKind
  /-- The characters. -/
  text : List Char
  deriving DecidableEq, Repr

namespace Lexeme

/-- Whether a word can begin with `c`: an ASCII letter or an underscore. -/
def startsWord (c : Char) : Bool := c.isAlpha || c == '_'

/-- Whether a word can go on with `c`: an ASCII letter or digit or an underscore. -/
def continuesWord (c : Char) : Bool := c.isAlphanum || c == '_'

/-- Whether a comment can go on with `c`: it ends before a newline. -/
def continuesComment (c : Char) : Bool := c != '\n'

/-- The operator or punctuation mark at the front of a text, with the text after it. -/
def symbol? (cs : List Char) : Option (Lexeme × List Char) :=
  TokenKind.symbols.findSome? fun (mark, kind) =>
    if mark.isPrefixOf cs then some (⟨some kind, mark⟩, cs.drop mark.length) else none

/-- The lexeme at the front of a text, with the text after it. -/
def first? : List Char → Option (Lexeme × List Char)
  | [] => none
  | c :: cs =>
    if startsWord c then
      let word := c :: cs.takeWhile continuesWord
      some (⟨some (.ofWord word), word⟩, cs.dropWhile continuesWord)
    else if c.isDigit then
      some (⟨some .number, c :: cs.takeWhile Char.isDigit⟩, cs.dropWhile Char.isDigit)
    else if Text.isWhiteSpace c then
      some (⟨none, c :: cs.takeWhile Text.isWhiteSpace⟩, cs.dropWhile Text.isWhiteSpace)
    else if ['/', '/'].isPrefixOf (c :: cs) then
      some (⟨none, c :: cs.takeWhile continuesComment⟩, cs.dropWhile continuesComment)
    else symbol? (c :: cs)

theorem symbols_nonempty : ∀ s ∈ TokenKind.symbols, s.1 ≠ [] := by decide

theorem symbol?_text {cs rest : List Char} {l : Lexeme} (h : symbol? cs = some (l, rest)) :
    l.text ++ rest = cs := by
  obtain ⟨⟨mark, kind⟩, -, hs⟩ := List.exists_of_findSome?_eq_some h
  simp only [Option.ite_none_right_eq_some, Option.some.injEq, Prod.mk.injEq] at hs
  obtain ⟨hp, rfl, rfl⟩ := hs
  exact List.prefix_iff_eq_append.1 (List.isPrefixOf_iff_prefix.1 hp)

theorem symbol?_nonempty {cs rest : List Char} {l : Lexeme} (h : symbol? cs = some (l, rest)) :
    l.text ≠ [] := by
  obtain ⟨⟨mark, kind⟩, hm, hs⟩ := List.exists_of_findSome?_eq_some h
  simp only [Option.ite_none_right_eq_some, Option.some.injEq, Prod.mk.injEq] at hs
  obtain ⟨-, rfl, -⟩ := hs
  exact symbols_nonempty _ hm

/-- The lexeme and the text after it make up the text. -/
theorem first?_text {cs rest : List Char} {l : Lexeme} (h : first? cs = some (l, rest)) :
    l.text ++ rest = cs := by
  cases cs with
  | nil => simp [first?] at h
  | cons c cs =>
    simp only [first?] at h
    split at h
    · cases h; simp
    split at h
    · cases h; simp
    split at h
    · cases h; simp
    split at h
    · cases h; simp
    exact symbol?_text h

/-- A lexeme is not empty. -/
theorem first?_nonempty {cs rest : List Char} {l : Lexeme} (h : first? cs = some (l, rest)) :
    l.text ≠ [] := by
  cases cs with
  | nil => simp [first?] at h
  | cons c cs =>
    simp only [first?] at h
    split at h
    · cases h; simp
    split at h
    · cases h; simp
    split at h
    · cases h; simp
    split at h
    · cases h; simp
    exact symbol?_nonempty h

/-- Taking off a lexeme leaves a shorter text. -/
theorem first?_length {cs rest : List Char} {l : Lexeme} (h : first? cs = some (l, rest)) :
    rest.length < cs.length := by
  have hne := List.length_pos_iff.2 (first?_nonempty h)
  have := congrArg List.length (first?_text h)
  simp only [List.length_append] at this
  omega

/-- Splits a text into lexemes as far as that goes, and gives the text that is left over. -/
def split (cs : List Char) : List Lexeme × List Char :=
  match h : first? cs with
  | none => ([], cs)
  | some (l, rest) =>
    have := first?_length h
    let (ls, left) := split rest
    (l :: ls, left)
termination_by cs.length

/-- The number of bytes of some lexemes. -/
def byteSize (ls : List Lexeme) : Nat := Text.byteSize (ls.flatMap text)

end Lexeme

namespace Token

/-- The name of a text that comes from no file. -/
def unnamed : String := "shell"

/-- The tokens of some lexemes that begin `offset` bytes into a file, and the end of input. -/
def place (file : String) : Nat → List Lexeme → List Token
  | offset, [] => [endOfInput (.ofNat file offset)]
  | offset, l :: ls =>
    let next := offset + Text.byteSize l.text
    match l.kind with
    | none => place file next ls
    | some kind =>
      ⟨kind, String.ofList l.text, ⟨.ofNat file offset, .ofNat file next⟩⟩ :: place file next ls

/-- The tokens of a source text. -/
def scan (source file : String) : Except Diagnostic (List Token) :=
  match Lexeme.split source.toList with
  | (lexemes, []) => .ok (place file 0 lexemes)
  | (lexemes, c :: _) =>
    .error ⟨.unrecognisedToken (String.singleton c), .ofNat file (Lexeme.byteSize lexemes)⟩

end Token

end SimpleLang
