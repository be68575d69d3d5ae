import LambdaSyntax.Report
import LambdaSyntax.Source

/-!
Checking the lines of several files.

The files are checked in the order given, each as a batch of its own. A run gives the reports on
all of them or none: the first file that cannot be read is the error of the run.
-/

namespace LambdaSyntax

/-- Why a run gives no report. -/
inductive RunError where
  /-- No file was named. -/
  | noInputs
  /-- A file could not be read. -/
  | unreadable (error : ReadError)
deriving DecidableEq, Repr

/-- The sentence that reports a failed run. -/
def RunError.message : RunError → String
  | .noInputs => "Checker configuration error: No input filepaths were given"
  | .unreadable error =>
    let message := error.message
    s!"Input file error: {message}"

/-- The report on one file, under a line that names it. -/
def Files.check (files : Files) (printTrees : Bool) (path : String) : Except ReadError String :=
  (files.lines path).map fun lines =>
    let text := (Report.ofLines lines).text printTrees
    s!"Checking {path}...\n{text}"

/-- The reports on all files named, in order. -/
def Files.run (files : Files) (printTrees : Bool) (paths : List String) :
    Except RunError String :=
  if paths.isEmpty then
    .error .noInputs
  else
    match paths.mapM (files.check printTrees) with
    | .ok reports => .ok ("\n".intercalate reports)
    | .error error => .error (.unreadable error)

end LambdaSyntax
