import SimpleLang.Text.Outline

/-!
# Reading a source text

Places in a source text are counted in the bytes of its UTF-8 form.

* `Position` and `Span`: a byte offset together with the name of the file it counts in, and the
  stretch between two of them.  Offsets are 32-bit words: beyond 4 GiB they wrap around.
* `Line.find?`: the line of a text that contains a byte offset.  The offset at the very end of the
  text belongs to the last line, because that is where a missing token is reported.
* `Reader`: a place in a text, counted in a 64-bit word.  It can be moved forward as long as the
  count fits, also past the end of the text.
-/

namespace SimpleLang

namespace Text

/-- The number of bytes of a text in UTF-8. -/
def byteSize (cs : List Char) : Nat := cs.foldr (fun c n => c.utf8Size + n) 0

/-- The text after its first `n` bytes, or nothing when `n` is past the end or inside a
character. -/
def dropBytes? : Nat → List Char → Option (List Char)
  | 0, cs => some cs
  | _ + 1, [] => none
  | n + 1, c :: cs => if c.utf8Size ≤ n + 1 then dropBytes? (n + 1 - c.utf8Size) cs else none

end Text

/-! ### Positions -/

/-- A byte offset into a named file. -/
structure Position where
  /-- The offset, in bytes. -/
  offset : UInt32
  /-- The file's name. -/
  file : String
  deriving DecidableEq, Repr

namespace Position

/-- The position `n` bytes into a file. -/
def ofNat (file : String) (n : Nat) : Position := ⟨UInt32.ofNat n, file⟩

/-- The outline of a position. -/
def outline (p : Position) : Outline :=
  .tuple "Position" [.number p.offset.toNat, .text p.file]

end Position

/-- A stretch of source text, from `start` up to and without `stop`. -/
structure Span where
  /-- Where the stretch begins. -/
  start : Position
  /-- Where it ends. -/
  stop : Position
  deriving DecidableEq, Repr

namespace Span

/-- The outline of a span. -/
def outline (s : Span) : Outline :=
  .record "Span" [("start", s.start.outline), ("end", s.stop.outline)]

end Span

/-! ### Lines -/

/-- A line of a text and a place in it. -/
structure Line where
  /-- The line's number, from one. -/
  number : Nat
  /-- The line's text with the newline that ends it. -/
  text : List Char
  /-- The place in the line, in bytes. -/
  column : Nat
  deriving DecidableEq, Repr

namespace Line

/-- Puts a character in front of the first of some lines. -/
def extend (c : Char) (lines : List (List Char)) : List (List Char) :=
  if c = '\n' then [c] :: lines
  else match lines with
    | [] => [[c]]
    | l :: ls => (c :: l) :: ls

/-- A text cut after each newline. -/
def split (cs : List Char) : List (List Char) := cs.foldr extend []

/-- The line among `lines`, the first of which has number `number`, that contains the offset.
Only the last line contains the offset at its end. -/
def locate (number : Nat) : List (List Char) → Nat → Option Line
  | [], _ => none
  | [l], offset => if offset ≤ Text.byteSize l then some ⟨number, l, offset⟩ else none
  | l :: l' :: ls, offset =>
    if offset < Text.byteSize l then some ⟨number, l, offset⟩
    else locate (number + 1) (l' :: ls) (offset - Text.byteSize l)

/-- The line of `content` at a byte offset; nothing when the text is empty or ends before it. -/
def find? (content : String) (offset : UInt32) : Option Line :=
  locate 1 (split content.toList) offset.toNat

end Line

/-! ### Readers -/

/-- A place in a text. -/
structure Reader where
  /-- The text that is read. -/
  source : String
  /-- The number of bytes passed over. -/
  offset : Nat

namespace Reader

/-- The beginning of a text. -/
def start (source : String) : Reader := ⟨source, 0⟩

/-- The place `n` bytes further on, if it can be counted. -/
def advance? (r : Reader) (n : Nat) : Option Reader :=
  if r.offset + n < UInt64.size then some { r with offset := r.offset + n } else none

/-- Whether no text is left. -/
def atEnd (r : Reader) : Bool := decide (Text.byteSize r.source.toList ≤ r.offset)

/-- The text that is left, if the place is a boundary between characters of the text. -/
def rest? (r : Reader) : Option String :=
  (Text.dropBytes? r.offset r.source.toList).map String.ofList

end Reader

end SimpleLang
