import SimpleLang.Command.Run

/-!
# The command line
-/

namespace SimpleLang.Command

/-- The text that help gives. -/
def helpText : String :=
  "Type checker for the Simple language\n\n" ++
  "Usage: simple-check [OPTIONS] <FILE>\n\n" ++
  "Arguments:\n" ++
  "  <FILE>  Source file to check\n\n" ++
  "Options:\n" ++
  "      --globals   Print the global scope after a successful check\n" ++
  "      --dump-ast  Pretty-print the parsed program before checking\n" ++
  "      --timings   Print how long each phase took\n" ++
  "  -h, --help      Print help\n"

/-- The text for arguments that are not allowed. -/
def invalidText : String :=
  "error: invalid arguments\n\nUsage: simple-check [OPTIONS] <FILE>\n\n" ++
  "For more information, try '--help'.\n"

/-- The number of a system error, which some operations give with a minus sign. -/
def errorNumber (code : UInt32) : UInt32 := if code < 0x80000000 then code else 0 - code

/-- Why the system could not read a file. -/
def readErrorOf (e : IO.Error) : ReadError :=
  match e with
  | .noFileOrDirectory _ _ _ => .notFound
  | .inappropriateType _ code _ =>
    if errorNumber code = 20 then .notDirectory
    else if errorNumber code = 21 then .isDirectory
    else .other (toString e)
  | .permissionDenied _ _ _ => .other "Permission denied (os error 13)"
  | .invalidArgument _ code _ =>
    if errorNumber code = 36 then .nameTooLong else .other (toString e)
  | _ => .other (toString e)

/-- Reads a file of the disk. -/
def readDisk (path : String) : IO (Except ReadError String) := do
  try
    return decode (← IO.FS.readBinFile path)
  catch e => return .error (readErrorOf e)

/-- Whether output is coloured: as the environment says, and else only on a terminal. -/
def wantsColour : IO Bool := do
  match ← IO.getEnv "CLICOLOR_FORCE" with
  | some value => if value ≠ "0" then return true
  | none => pure ()
  if (← IO.getEnv "NO_COLOR").isSome then return false
  if (← IO.getEnv "CLICOLOR") = some "0" then return false
  (← IO.getStdout).isTty

/-- The console of the system. -/
def systemConsole : IO (Console IO) := do
  return { read := readDisk, now := IO.monoNanosNow, coloured := ← wantsColour }

end SimpleLang.Command

open SimpleLang.Command in
/-- Checks the program in a file. -/
def main (arguments : List String) : IO UInt32 := do
  match Arguments.read arguments with
  | .error .help =>
    IO.print helpText
    return 0
  | .error .invalid =>
    IO.eprint invalidText
    return misusedCode
  | .ok options =>
    let output ← run (← systemConsole) options
    IO.print output.stdout
    IO.eprint output.stderr
    return output.code
