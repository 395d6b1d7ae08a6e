/-!
# The command's arguments

The command takes one file and a few flags.  Arguments are read from left to right, and the first
that asks for help or is not allowed decides.
-/

namespace SimpleLang.Command

/-- What the command is asked to do. -/
structure Options where
  /-- The file to check. -/
  file : String
  /-- Whether to list the global scope. -/
  globals : Bool
  /-- Whether to show the program's tree. -/
  dumpTree : Bool
  /-- Whether to tell how long each step took. -/
  timings : Bool
  deriving DecidableEq, Repr

/-- Why the command does nothing. -/
inductive Usage where
  /-- Help was asked for. -/
  | help
  /-- The arguments are not allowed. -/
  | invalid
  deriving DecidableEq, Repr

/-- The arguments read so far. -/
structure Arguments where
  /-- The file, once one was given. -/
  file : Option String
  /-- Whether the global scope was asked for. -/
  globals : Bool
  /-- Whether the tree was asked for. -/
  dumpTree : Bool
  /-- Whether the times were asked for. -/
  timings : Bool
  /-- Whether the rest can only be files. -/
  onlyFiles : Bool
  deriving DecidableEq, Repr

namespace Arguments

/-- No argument was read. -/
def none : Arguments := ⟨Option.none, false, false, false, false⟩

/-- Takes a file.  There can be only one, and its name is not empty. -/
def takeFile (a : Arguments) (name : String) : Except Usage Arguments :=
  if name.isEmpty || a.file.isSome then .error .invalid else .ok { a with file := some name }

/-- Takes a flag that begins with two dashes.  None can be given twice. -/
def takeFlag (a : Arguments) (flag : String) : Except Usage Arguments :=
  if flag = "--help" then .error .help
  else if flag = "--globals" && !a.globals then .ok { a with globals := true }
  else if flag = "--dump-ast" && !a.dumpTree then .ok { a with dumpTree := true }
  else if flag = "--timings" && !a.timings then .ok { a with timings := true }
  else .error .invalid

/-- Takes an argument.  A single dash is a file, and so is all that follows two dashes. -/
def take (a : Arguments) (argument : String) : Except Usage Arguments :=
  if a.onlyFiles then a.takeFile argument
  else match argument.toList with
    | ['-', '-'] => .ok { a with onlyFiles := true }
    | '-' :: '-' :: _ => a.takeFlag argument
    | '-' :: 'h' :: _ => .error .help
    | '-' :: _ :: _ => .error .invalid
    | _ => a.takeFile argument

/-- The options that the arguments come to, once a file was given. -/
def options (a : Arguments) : Except Usage Options :=
  match a.file with
  | some file => .ok ⟨file, a.globals, a.dumpTree, a.timings⟩
  | Option.none => .error .invalid

/-- Reads a list of arguments. -/
def read (arguments : List String) : Except Usage Options := do
  (← arguments.foldlM take none).options

end Arguments

end SimpleLang.Command
