import PLang.CommandLine.Run

/-!
# The program

Reads the input file, runs the command and passes on what it leaves.
-/

open PLang.CommandLine

/-- The bytes of a file, or why it cannot be read. -/
def readInput (path : String) : IO (Except ReadFault ByteArray) := do
  try
    return .ok (← IO.FS.readBinFile path)
  catch e =>
    match e with
    | .noFileOrDirectory .. => return .error .missing
    | .inappropriateType .. => return .error .directory
    | e => return .error (.other (toString e))

/-- Runs the command on the arguments of the process. -/
def main (arguments : List String) : IO UInt32 := do
  let contents ←
    match request? arguments with
    | some (.check options) => readInput options.input
    | _ => pure (.error .missing)
  let outcome := run (fun _ => contents) arguments
  IO.print outcome.stdout
  IO.eprint outcome.stderr
  return outcome.exit.toUInt32
