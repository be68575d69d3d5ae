import LambdaSyntax.Arena.Builder
import LambdaSyntax.Arena.Dump
import LambdaSyntax.Tokenization

/-!
Reports on a batch of lines.

Each line is checked on its own. The text of a report has one line for each line checked, a closing
sentence if all of them were accepted, and on request the tree of every accepted line.
-/

namespace LambdaSyntax

/-- What became of one line. -/
inductive Outcome where
  | accepted (tokens : List Token)
  | rejected (rejection : Rejection)
  /-- The line holds only white space. -/
  | blank
deriving DecidableEq, Repr

/-- Checks one line. A line without tokens is blank, which is neither accepted nor rejected. -/
def Outcome.ofLine (line : String) : Outcome :=
  match tokenize line.toList with
  | .ok [] => .blank
  | .ok tokens => .accepted tokens
  | .error rejection => .rejected rejection

/-- Whether a line was accepted. -/
def Outcome.isAccepted : Outcome → Bool
  | .accepted _ => true
  | _ => false

/-- A line with its number, which counts from one, and its outcome. -/
structure LineReport where
  number : Nat
  line : String
  outcome : Outcome
deriving DecidableEq, Repr

/-- The reports on the lines of a batch, in order. -/
structure Report where
  lines : List LineReport
deriving DecidableEq, Repr

/-- The line that tells what became of a line. -/
def LineReport.verdict (report : LineReport) : String :=
  let number := report.number
  match report.outcome with
  | .accepted tokens =>
    let line := report.line
    let joined := Token.joined tokens
    s!"The tokenized string for input string {line} is {joined}"
  | .rejected rejection =>
    let message := rejection.message
    s!"Line {number} rejected: {message}"
  | .blank => s!"Line {number} is blank."

/-- The tree of an accepted line under its heading, which an empty line precedes. White space at
the end of the printed tree is left out. -/
def LineReport.tree (report : LineReport) : List String :=
  match report.outcome with
  | .accepted tokens =>
    let line := report.line
    let dump := (Arena.ofTokens tokens).dump
    [s!"\nParse tree for {line}:", String.ofList (Text.trimEnd dump.toList)]
  | _ => []

namespace Report

/-- Checks the lines of a batch. -/
def ofLines (lines : List String) : Report :=
  ⟨lines.mapIdx fun index line => ⟨index + 1, line, Outcome.ofLine line⟩⟩

/-- The number of accepted lines. -/
def acceptedCount (report : Report) : Nat :=
  report.lines.countP fun line => line.outcome.isAccepted

/-- Whether every line was accepted. A batch with a blank line is not valid, the empty batch is. -/
def allValid (report : Report) : Bool :=
  report.acceptedCount == report.lines.length

/-- The paragraphs of the text of a report, with the trees of the accepted lines on request. -/
def paragraphs (report : Report) (printTrees : Bool) : List String :=
  report.lines.map LineReport.verdict
    ++ (if report.allValid then ["All lines are valid"] else [])
    ++ (if printTrees then report.lines.flatMap LineReport.tree else [])

/-- The text of a report. No newline follows its last paragraph. -/
def text (report : Report) (printTrees : Bool) : String :=
  "\n".intercalate (report.paragraphs printTrees)

end Report

end LambdaSyntax
