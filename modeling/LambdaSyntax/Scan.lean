import LambdaSyntax.Rejection
import LambdaSyntax.Text.Blank
import LambdaSyntax.Token

/-!
Scanning a line, one character at a time.

Between two characters the scanner knows what is `Pending`: a backslash that waits for its
parameter, a bracket that must not be closed at once, or a name that the next character may
continue. `Pending.read` takes one character, gives the tokens that are complete with it, and says
what is pending afterwards. A line is scanned by folding this step over its characters, so scanning
`a ++ b` is scanning `a` and then, from where that ended, `b`.

A fault of a backslash or of an opening bracket lies at that character, though only the next one
shows it. The faults therefore come out in the order of their positions.
-/

namespace LambdaSyntax

/-- What the characters read so far leave open for the next one. -/
inductive Pending where
  /-- Nothing: at the start of a line, and after white space, a dot or a closing bracket. -/
  | nothing
  /-- The backslash at `position` waits for its parameter. -/
  | lambda (position : Nat)
  /-- A parameter is complete; a dot may follow it. -/
  | parameter
  /-- The opening bracket at `position` must not be closed at once. -/
  | bracket (position : Nat)
  /-- A name, its last character first; it may go on, and a dot may follow it. -/
  | name (reversed : List Char)
deriving DecidableEq, Repr

namespace Pending

/-- The token of a pending name, which is complete when the line ends or another token starts. -/
def flush : Pending → List Token
  | .name reversed => [.name (String.ofList reversed.reverse)]
  | _ => []

/-- Whether a name or a parameter ends just before the next character, so that this may be a
dot. -/
def endsName : Pending → Bool
  | .name _ => true
  | .parameter => true
  | _ => false

/-- Reads a character at `position` that neither continues a name nor follows a backslash;
`afterName` says whether it stands directly behind a name. -/
def start (afterName : Bool) (position : Nat) (c : Char) :
    Except Rejection (List Token × Pending) :=
  if c = '\\' then .ok ([], .lambda position)
  else if Text.isBlank c then .ok ([], .nothing)
  else if c.isDigit then .error ⟨.leadingDigit, position⟩
  else if c = '.' then
    if afterName then .ok ([.opening], .nothing) else .error ⟨.misplacedDot, position⟩
  else if c = '(' then .ok ([.opening], .bracket position)
  else if c = ')' then .ok ([.closing], .nothing)
  else if c.isAlpha then .ok ([], .name [c])
  else .error ⟨.illegalCharacter c, position⟩

/-- Reads the character at `position`: the tokens that it completes, and what is pending after
it. -/
def read (pending : Pending) (position : Nat) (c : Char) :
    Except Rejection (List Token × Pending) :=
  match pending with
  | .lambda backslash =>
    if Text.isBlank c then .error ⟨.blankAfterLambda, backslash⟩
    else if c.isAlpha then .ok ([.lambda, .name (String.singleton c)], .parameter)
    else .error ⟨.missingParameter, backslash⟩
  | .bracket opening =>
    if c = ')' then .error ⟨.emptyGroup, opening⟩ else start false position c
  | .name reversed =>
    if c.isAlphanum then .ok ([], .name (c :: reversed))
    else (start true position c).map fun (tokens, next) =>
      ((Pending.name reversed).flush ++ tokens, next)
  | .parameter => start true position c
  | .nothing => start false position c

end Pending

/-- A scan of the characters before `position`: the tokens complete so far, the last one first, and
what is pending. -/
structure Scan where
  position : Nat
  pending : Pending
  emitted : List Token
deriving DecidableEq, Repr

namespace Scan

/-- The scan of no characters. -/
def start : Scan := ⟨0, .nothing, []⟩

/-- Reads one more character. -/
def step (scan : Scan) (c : Char) : Except Rejection Scan :=
  match scan.pending.read scan.position c with
  | .ok (tokens, next) => .ok ⟨scan.position + 1, next, tokens.reverse ++ scan.emitted⟩
  | .error rejection => .error rejection

/-- Reads the characters of a line in order. -/
def run (scan : Scan) (line : List Char) : Except Rejection Scan :=
  line.foldlM step scan

/-- The tokens of a scan that no further character follows. Only a backslash may not stand last. -/
def finish (scan : Scan) : Except Rejection (List Token) :=
  match scan.pending with
  | .lambda backslash => .error ⟨.missingParameter, backslash⟩
  | pending => .ok (scan.emitted.reverse ++ pending.flush)

@[simp] theorem run_nil (scan : Scan) : scan.run [] = .ok scan := rfl

theorem run_cons (scan : Scan) (c : Char) (line : List Char) :
    scan.run (c :: line) = (scan.step c).bind (·.run line) := rfl

/-- Scanning a line that has two parts is scanning them one after the other. -/
theorem run_append (scan : Scan) (first second : List Char) :
    scan.run (first ++ second) = (scan.run first).bind (·.run second) := by
  simp only [run, List.foldlM_append]; rfl

end Scan

end LambdaSyntax
