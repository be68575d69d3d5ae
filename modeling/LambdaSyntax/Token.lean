/-!
Tokens of lambda notation.

A line of notation is a sequence of four kinds of token: names, lambdas, and the two ends of a
group. A name token can hold any text. The names that occur in notation are the identifiers: an
ASCII letter followed by ASCII letters and digits.
-/

namespace LambdaSyntax

/-- A token of lambda notation. -/
inductive Token where
  /-- A variable, or the parameter of the lambda before it. -/
  | name (text : String)
  /-- The sign that binds the name after it. -/
  | lambda
  /-- The start of a group, written as a bracket or as a dot. -/
  | opening
  /-- The end of a group. -/
  | closing
deriving DecidableEq, Repr

/-- The literal text of a token. -/
def Token.text : Token → String
  | .name text => text
  | .lambda => "\\"
  | .opening => "("
  | .closing => ")"

/-- The printed form of a token sequence: the literal texts with underscores between them. -/
def Token.joined (tokens : List Token) : String :=
  "_".intercalate (tokens.map Token.text)

/-- Whether a text is an identifier: an ASCII letter and then only ASCII letters and digits. -/
def isIdentifier (text : String) : Bool :=
  match text.toList with
  | [] => false
  | first :: rest => first.isAlpha && rest.all Char.isAlphanum

end LambdaSyntax
