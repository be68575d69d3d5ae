import LambdaSyntax.Options
import LambdaSyntax.Run

/-!
The program as a function of its arguments and of the files it can read.

What the program prints and the code with which it ends are determined together: a program that
fails prints nothing to standard output.
-/

namespace LambdaSyntax

/-- The help text. -/
def helpText : String :=
  "Config for the checker. Instantiate via `CheckerConfig::parse()`

Usage: lambda-syntax-check [OPTIONS]

Options:
  -s, --src-filepaths <SRC_FILEPATHS>...
          The input filepaths to check. Each line is checked on its own
  -p, --print-trees
          Also print the parse tree of every accepted line
  -h, --help
          Print help
  -V, --version
          Print version
"

/-- The text that tells the version. -/
def versionText : String := "lambda-syntax-check 0.1.0\n"

/-- The sentence that reports a command line that does not fit. -/
def Options.Misuse.message : Options.Misuse → String
  | .missingValue => "error: an option is missing its value"
  | .unknownArgument => "error: an argument is unknown"
  | .unexpectedValue => "error: a value is attached to an option that takes none"
  | .repeatedOption => "error: an option is given more than once"

/-- How the program ends. -/
inductive Ending where
  /-- The reports on all files. -/
  | report (text : String)
  /-- The help or the version. -/
  | information (text : String)
  /-- The run failed. -/
  | failure (error : RunError)
  /-- The command line does not fit. -/
  | misuse (cause : Options.Misuse)
deriving DecidableEq, Repr

namespace Ending

/-- The code with which the program ends. -/
def exitCode : Ending → UInt32
  | .report _ => 0
  | .information _ => 0
  | .failure _ => 1
  | .misuse _ => 2

/-- What the program prints to standard output. -/
def output : Ending → String
  | .report text => text ++ "\n"
  | .information text => text
  | .failure _ => ""
  | .misuse _ => ""

/-- What the program prints to standard error. -/
def errorOutput : Ending → String
  | .report _ => ""
  | .information _ => ""
  | .failure error => error.message ++ "\n"
  | .misuse cause => cause.message ++ "\n"

end Ending

/-- Runs the program with its arguments on the files it can read. -/
def program (files : Files) (arguments : List String) : Ending :=
  match Options.parse arguments with
  | .error .help => .information helpText
  | .error .version => .information versionText
  | .error (.misuse cause) => .misuse cause
  | .ok options =>
    match files.run options.printTrees options.paths with
    | .ok text => .report text
    | .error error => .failure error

end LambdaSyntax
