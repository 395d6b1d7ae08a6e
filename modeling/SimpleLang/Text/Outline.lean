import SimpleLang.Text.Characters

/-!
# Showing values

A text is quoted between double quotes.  The quote, the backslash and the common controls have
short escapes; any other character that cannot be shown by itself is written as its code point
in hexadecimal.

An outline shows a value as named records, tuples and lists.  It is written either on one line
or with one item a line, indented by four blanks a level and with a comma after every item.
-/

namespace SimpleLang

namespace Text

/-! ### Quoted texts -/

/-- The escape of a character by its code point: `\u`, then the digits in braces. -/
def escapeCode (c : Char) : List Char :=
  '\\' :: 'u' :: '{' :: Nat.toDigits 16 c.toNat ++ ['}']

/-- A character as it stands between quotes. -/
def escape (c : Char) : List Char :=
  if c = '\x00' then ['\\', '0']
  else if c = '\t' then ['\\', 't']
  else if c = '\r' then ['\\', 'r']
  else if c = '\n' then ['\\', 'n']
  else if c = '\"' then ['\\', '\"']
  else if c = '\\' then ['\\', '\\']
  else if unprintable.contains c || combining.contains c then escapeCode c
  else [c]

/-- A text in double quotes, with escapes. -/
def quoted (s : String) : String :=
  String.ofList ('\"' :: s.toList.flatMap escape ++ ['\"'])

end Text

/-! ### Outlines -/

/-- The shape of a structured value. -/
inductive Outline where
  /-- A word or number that stands for itself. -/
  | word (text : String)
  /-- A text, shown in quotes. -/
  | text (content : String)
  /-- A name with items in parentheses. -/
  | tuple (name : String) (items : List Outline)
  /-- A name with labelled fields in braces. -/
  | record (name : String) (fields : List (String × Outline))
  /-- Items in brackets. -/
  | list (items : List Outline)

namespace Outline

/-- A number. -/
def number (n : Nat) : Outline := .word (toString n)

/-- A value that may be missing. -/
def option : Option Outline → Outline
  | none => .word "None"
  | some o => .tuple "Some" [o]

mutual

/-- The outline on one line. -/
def compact : Outline → String
  | .word t => t
  | .text s => Text.quoted s
  | .tuple name items => name ++ "(" ++ compactItems items ++ ")"
  | .record name fields => name ++ r" { " ++ compactFields fields ++ r" }"
  | .list items => "[" ++ compactItems items ++ "]"

/-- Items divided by commas. -/
def compactItems : List Outline → String
  | [] => ""
  | [o] => o.compact
  | o :: os => o.compact ++ ", " ++ compactItems os

/-- Labelled fields divided by commas. -/
def compactFields : List (String × Outline) → String
  | [] => ""
  | [(label, o)] => label ++ ": " ++ o.compact
  | (label, o) :: fields => label ++ ": " ++ o.compact ++ ", " ++ compactFields fields

end

/-- The blanks added at each level of an indented outline. -/
def indentation : String := "    "

mutual

/-- The outline over several lines, of which all but the first begin with `margin`.  An empty
list stays on its line. -/
def indentedFrom (margin : String) : Outline → String
  | .word t => t
  | .text s => Text.quoted s
  | .tuple name items =>
    name ++ "(\n" ++ indentedItems (margin ++ indentation) items ++ margin ++ ")"
  | .record name fields =>
    name ++ r" {" ++ "\n" ++ indentedFields (margin ++ indentation) fields ++ margin ++ r"}"
  | .list [] => "[]"
  | .list (o :: os) =>
    "[\n" ++ indentedItems (margin ++ indentation) (o :: os) ++ margin ++ "]"

/-- Items on lines of their own. -/
def indentedItems (margin : String) : List Outline → String
  | [] => ""
  | o :: os => margin ++ o.indentedFrom margin ++ ",\n" ++ indentedItems margin os

/-- Labelled fields on lines of their own. -/
def indentedFields (margin : String) : List (String × Outline) → String
  | [] => ""
  | (label, o) :: fields =>
    margin ++ label ++ ": " ++ o.indentedFrom margin ++ ",\n" ++ indentedFields margin fields

end

/-- The outline with one item a line. -/
def indented (o : Outline) : String := o.indentedFrom ""

end Outline

end SimpleLang
