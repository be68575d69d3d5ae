import LambdaSyntax.Brackets
import LambdaSyntax.Scan

/-!
The token sequence of a line.

A line is accepted when its brackets match and the scan meets no fault. A dot opens a group without
saying where it ends: a closing bracket ends the innermost group however it was opened, and every
group that is still open at the end of the line is closed there.
-/

namespace LambdaSyntax

/-- The number of groups that a token sequence opens and does not close, when no group in it is
closed more often than it is opened. -/
def Token.unclosed (tokens : List Token) : Nat :=
  tokens.count .opening - tokens.count .closing

/-- A token sequence with its open groups closed at the end. -/
def Token.closeGroups (tokens : List Token) : List Token :=
  tokens ++ List.replicate (unclosed tokens) .closing

/-- The tokens of a line, or why it is rejected. -/
def tokenize (line : List Char) : Except Rejection (List Token) := do
  Brackets.check line
  let scan ← Scan.start.run line
  let tokens ← scan.finish
  return Token.closeGroups tokens

end LambdaSyntax
