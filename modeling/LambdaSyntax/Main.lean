import LambdaSyntax.Program

/-!
The command line. It reads the files that the arguments name, runs `program` on them, and prints
the outcome.
-/

namespace LambdaSyntax

/-- The bytes of a file; a file that cannot be read counts as missing. -/
def readFile? (path : String) : IO (Option ByteArray) := do
  try
    return some (← IO.FS.readBinFile path)
  catch _ =>
    return none

/-- The files that the arguments name. A command line that does not fit names none. -/
def readFiles (arguments : List String) : IO Files := do
  match Options.parse arguments with
  | .error _ => return fun _ => none
  | .ok options =>
    let contents ← options.paths.mapM fun path => return (path, ← readFile? path)
    return fun path => (contents.lookup path).bind id

end LambdaSyntax

open LambdaSyntax in
/-- Runs the program and ends with its exit code. -/
def main (arguments : List String) : IO UInt32 := do
  let files ← readFiles arguments
  let ending := program files arguments
  IO.print ending.output
  IO.eprint ending.errorOutput
  return ending.exitCode
