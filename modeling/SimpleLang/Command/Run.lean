import SimpleLang.Check.Program
import SimpleLang.Command.Arguments
import SimpleLang.Command.FileTree
import SimpleLang.Diagnostic.Report

/-!
# Running the command

The command reads a file, checks the program in it and tells the result.  It runs against a
`Console`, which reads files and tells the time.
-/

namespace SimpleLang.Command

/-! ### Durations

A duration is shown in the largest of seconds, milliseconds, microseconds and nanoseconds that
it comes to one of, with as many decimal places as it needs. -/

namespace Duration

/-- A unit of time. -/
structure TimeUnit where
  /-- How it is written. -/
  symbol : String
  /-- How many nanoseconds it is. -/
  nanoseconds : Nat
  /-- How many decimal places tell nanoseconds apart. -/
  places : Nat

/-- The units above the nanosecond, from the largest. -/
def units : List TimeUnit := [⟨"s", 1000000000, 9⟩, ⟨"ms", 1000000, 6⟩, ⟨"µs", 1000, 3⟩]

/-- The digits after the decimal point, of which there are at most `places`, without the zeros at
the end. -/
def decimals (rest places : Nat) : List Char :=
  let digits := Nat.toDigits 10 rest
  let padded := List.replicate (places - digits.length) '0' ++ digits
  (padded.reverse.dropWhile (· == '0')).reverse

/-- A number of nanoseconds in a unit. -/
def inUnit (n : Nat) (unit : TimeUnit) : String :=
  let whole := toString (n / unit.nanoseconds)
  match decimals (n % unit.nanoseconds) unit.places with
  | [] => whole ++ unit.symbol
  | digits => whole ++ "." ++ String.ofList digits ++ unit.symbol

/-- A number of nanoseconds as it is shown. -/
def text (n : Nat) : String :=
  match units.find? fun unit => unit.nanoseconds ≤ n with
  | some unit => inUnit n unit
  | none => toString n ++ "ns"

end Duration

/-! ### What the command writes -/

/-- What the command needs of the world around it. -/
structure Console (m : Type → Type) where
  /-- Reads a file. -/
  read : String → m (Except ReadError String)
  /-- The time, in nanoseconds. -/
  now : m Nat
  /-- Whether output is coloured. -/
  coloured : Bool

/-- What a run of the command leaves behind. -/
structure Output where
  /-- The exit code. -/
  code : UInt32
  /-- The text on the standard output. -/
  stdout : String
  /-- The text on the standard error. -/
  stderr : String
  deriving DecidableEq, Repr

/-- A text in a style, given by its code for terminals. -/
def styled (coloured : Bool) (style text : String) : String :=
  if coloured then "\x1b[" ++ style ++ "m" ++ text ++ "\x1b[0m" else text

/-- The exit code after a program was rejected. -/
def rejectedCode : UInt32 := 1

/-- The exit code after a file could not be read or the arguments were not allowed. -/
def misusedCode : UInt32 := 2

/-- The exit code after the command itself broke down. -/
def brokenCode : UInt32 := 101

/-- The output for a file that cannot be read. -/
def unreadable (coloured : Bool) (file : String) (error : ReadError) : Output where
  code := misusedCode
  stdout := ""
  stderr := styled coloured "31" "Error:" ++ " cannot read " ++ file ++ ": " ++ error.message ++ "\n"

/-- The output for a rejected program, after some text that was written before. -/
def rejected (coloured : Bool) (file source written : String) (d : Diagnostic) : Output :=
  match d.report? source file with
  | some report =>
    ⟨rejectedCode, written ++ report ++ "Result: " ++ styled coloured "1;31" "FAIL" ++ "\n", ""⟩
  | none => ⟨brokenCode, written, "the report is too wide\n"⟩

/-- The lines that list the global scope. -/
def globalLines (s : Session) : String :=
  s.globalTypes.foldl (fun lines (name, type) => lines ++ "  " ++ name ++ " : " ++ type ++ "\n")
    "Global scope:\n"

/-- The output for an accepted program, after some text that was written before. -/
def accepted (coloured : Bool) (o : Options) (written : String) (s : Session) : Output :=
  let globals := if o.globals then globalLines s else ""
  let result := "Result: " ++ styled coloured "1;32" "PASS" ++ " - program is well-typed.\n"
  ⟨0, written ++ globals ++ result, ""⟩

/-- The output for a check that failed, after some text that was written before. -/
def failed (coloured : Bool) (o : Options) (source written : String) :
    Failure Diagnostic → Output
  | .rejected d => rejected coloured o.file source written d
  | .breach b => ⟨brokenCode, written, b.message ++ "\n"⟩

/-! ### The steps of a run -/

section

variable {m : Type → Type} [Monad m]

/-- A line that tells how long ago a time was, if times are asked for. -/
def timing (console : Console m) (o : Options) (label : String) (since : Nat) : m String := do
  let now ← console.now
  return if o.timings then label ++ Duration.text (now - since) ++ "\n" else ""

/-- The lines that tell how long the check took, and how long everything did. -/
def lastTimings (console : Console m) (o : Options) (start checkStart : Nat) : m String := do
  let checked ← timing console o "Type checked in " checkStart
  let total ← timing console o "Total time: " start
  return checked ++ total

/-- Checks the program of a source text.  Each step is over before its time is taken. -/
def check (console : Console m) (o : Options) (source : String) : m Output := do
  let name := Path.fileName o.file
  let start ← console.now
  match Token.scan source name with
  | .error d => return rejected console.coloured o.file source "" d
  | .ok tokens =>
    let tokenized ← timing console o "Tokenized in " start
    let parseStart ← console.now
    match Program.ofTokens tokens name with
    | .error d =>
      let parsed ← timing console o "Parsed in " parseStart
      return rejected console.coloured o.file source (tokenized ++ parsed) d
    | .ok program =>
      let parsed ← timing console o "Parsed in " parseStart
      let tree := if o.dumpTree then program.outline.indented ++ "\n" else ""
      let written := tokenized ++ parsed ++ tree
      let checkStart ← console.now
      match program.check with
      | .ok _ s =>
        let times ← lastTimings console o start checkStart
        return accepted console.coloured o (written ++ times) s
      | .error e _ =>
        let times ← lastTimings console o start checkStart
        return failed console.coloured o source (written ++ times) e

/-- Runs the command with some options. -/
def run (console : Console m) (o : Options) : m Output := do
  match ← console.read o.file with
  | .error e => return unreadable console.coloured o.file e
  | .ok source => check console o source

end

end SimpleLang.Command
