import LambdaSyntax.Text.Quoted

/-!
Why a line is rejected.

A rejection names one fault and the position of the character that has it. Positions count
characters from zero.
-/

namespace LambdaSyntax

/-- What can be wrong with a character of a line. -/
inductive Fault where
  /-- A closing bracket without an opening one. -/
  | unmatchedClosing
  /-- An opening bracket without a closing one. -/
  | unmatchedOpening
  /-- White space between a backslash and its parameter. -/
  | blankAfterLambda
  /-- A digit that does not continue a name. -/
  | leadingDigit
  /-- A dot that does not directly follow a name. -/
  | misplacedDot
  /-- An opening bracket that is closed at once. -/
  | emptyGroup
  /-- A backslash that no letter follows. -/
  | missingParameter
  /-- A character that does not occur in the notation. -/
  | illegalCharacter (character : Char)
deriving DecidableEq, Repr

/-- A fault and the position of the character that has it. -/
structure Rejection where
  fault : Fault
  position : Nat
deriving DecidableEq, Repr

/-- The sentence that reports a rejection. -/
def Rejection.message (rejection : Rejection) : String :=
  let position := rejection.position
  match rejection.fault with
  | .unmatchedClosing => s!"Bracket ) at index {position} is not matched with a (."
  | .unmatchedOpening => s!"Bracket ( at index {position} is not matched with a )."
  | .blankAfterLambda => s!"Invalid whitespace after \\ at index {position}."
  | .leadingDigit => s!"Error at index {position}, variables cannot begin with digits."
  | .misplacedDot => s!"Dot at index {position} must directly follow a variable name."
  | .emptyGroup => s!"Missing expression for parenthesis at index {position}."
  | .missingParameter =>
    s!"Backslash at index {position} is not followed by a single-letter variable name."
  | .illegalCharacter character =>
    let quoted := String.ofList (Text.quote character)
    s!"Illegal character {quoted} at index {position}."

end LambdaSyntax
