import LambdaSyntax.Text.Blank

/-!
The lines of a text.

A newline ends a line, and what follows the last newline is a line only if there is something.
White space at the end of a line does not belong to it, so a carriage return before the newline does
not either; a carriage return anywhere else is a character of its line.
-/

namespace LambdaSyntax.Text

/-- The pieces of a text that its newlines end, and what follows the last newline unless that is
empty. -/
def pieces (text : List Char) : List (List Char) :=
  let pieces := text.splitOn '\n'
  if pieces.getLast? = some [] then pieces.dropLast else pieces

/-- The lines of a text, without the white space at their ends. -/
def lines (text : String) : List String :=
  (pieces text.toList).map fun piece => String.ofList (trimEnd piece)

end LambdaSyntax.Text
