import SimpleLang.Diagnostic

/-!
# Reports

A report shows a diagnostic with the source line it points into:

    Error: TypeMismatch (Expected type `int`, received `bool`)
    -> main.simple
      |
    2 | x := true;
      | -----^

The line is shown without the blanks and tabs it begins with and without the white space it
ends with.  When the position is outside of the source, only the first two lines are given.
-/

namespace SimpleLang

/-- The part of a report that shows a source line. -/
structure Excerpt where
  /-- The number of the line. -/
  lineNumber : Nat
  /-- The line as it is shown. -/
  shown : List Char
  /-- How many dashes stand before the caret. -/
  dashes : Nat
  deriving DecidableEq, Repr

namespace Excerpt

/-- Whether `c` is dropped from the beginning of a shown line. -/
def isIndent (c : Char) : Bool := c == ' ' || c == '\t'

/-- The excerpt for a place in a line.  The caret is moved left by the characters dropped
before it, and stands at the left edge if the place itself was dropped. -/
def ofLine (l : Line) : Excerpt where
  lineNumber := l.number
  shown := Text.trimEnd (l.text.dropWhile isIndent)
  dashes := l.column - (l.text.takeWhile isIndent).length

/-- The excerpt of a source text at an offset. -/
def find? (source : String) (offset : UInt32) : Option Excerpt :=
  (Line.find? source offset).map ofLine

/-- The digits of the line number. -/
def label (e : Excerpt) : String := toString e.lineNumber

/-- The bar that divides line numbers from text, below a line number. -/
def gutter (e : Excerpt) : String := "".pushn ' ' (e.label.length + 1) ++ "|"

/-- The dashes and the caret under a shown line. -/
def underline (e : Excerpt) : String := "".pushn '-' e.dashes ++ "^"

/-- The three lines of an excerpt. -/
def text (e : Excerpt) : String :=
  e.gutter ++ "\n" ++
    (e.label ++ " | " ++ String.ofList e.shown ++ "\n") ++
    (e.gutter ++ " " ++ e.underline ++ "\n")

/-- The widest underline that a report can hold. -/
def widestUnderline : Nat := 65535

/-- Whether the underline can be written. -/
def Fits (e : Excerpt) : Prop := e.dashes + 1 ≤ widestUnderline

instance (e : Excerpt) : Decidable e.Fits := inferInstanceAs (Decidable (_ ≤ _))

end Excerpt

namespace Diagnostic

/-- The first line of a report: the problem's name and the tip on it. -/
def headline (d : Diagnostic) : String :=
  match d.problem.tip with
  | none => "Error: " ++ d.problem.name ++ "\n"
  | some tip => "Error: " ++ d.problem.name ++ " (" ++ tip ++ ")\n"

/-- The report on a diagnostic about `source`, a text shown under the name `file`.  There is no
report if the underline would be too wide. -/
def report? (d : Diagnostic) (source file : String) : Option String :=
  let heading := d.headline ++ "-> " ++ file ++ "\n"
  match Excerpt.find? source d.position.offset with
  | none => some heading
  | some e => if e.Fits then some (heading ++ e.text) else none

end Diagnostic

end SimpleLang
