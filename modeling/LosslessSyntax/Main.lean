import LosslessSyntax.CommandLine

/-!
# Main — the command line program
-/

namespace LosslessSyntax.CommandLine

/-- Whether the system's number of an error is a given one; it may come negated. -/
def isErrorNumber (code number : UInt32) : Bool := code = number || code = -number

/-- Why the system did not give the bytes of a file.  Some kinds of errors have several reasons, which
differ in their numbers. -/
def ReadFailure.ofSystem : IO.Error → ReadFailure
  | .noFileOrDirectory .. | .noSuchThing .. => .notFound
  | .inappropriateType _ code _ => if isErrorNumber code 20 then .notDirectory else .isDirectory
  | .invalidArgument file code details =>
    if isErrorNumber code 36 then .nameTooLong
    else .other (toString (IO.Error.invalidArgument file code details))
  | e => .other (toString e)

/-- Reads a source. -/
def readSource (s : Source) : IO (Except ReadFailure ByteArray) := do
  try
    match s with
    | .stdin => return .ok (← (← IO.getStdin).readBinToEnd)
    | .file path => return .ok (← IO.FS.readBinFile path)
  catch e => return .error (.ofSystem e)

end LosslessSyntax.CommandLine

open LosslessSyntax.CommandLine in
/-- Carries out a call. -/
def main (args : List String) : IO UInt32 := do
  let outcome ←
    match Command.ofArgs args with
    | .error _ => pure usageOutcome
    | .ok .version => pure (Command.version.outcome fun _ => .error .notFound)
    | .ok (.report what source) => do
      let bytes ← readSource source
      pure ((Command.report what source).outcome fun _ => bytes)
  (← IO.getStdout).putStr outcome.stdout
  (← IO.getStderr).putStr outcome.stderr
  return outcome.exit.toUInt32
