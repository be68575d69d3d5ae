import LambdaSyntax.Text.Unprintable

/-!
Quoting a single character.

A quoted character stands between single quotes and is readable whatever it is: a few characters
have a short escape, the unprintable ones are written by their code point in hexadecimal, and all
others stand for themselves.
-/

namespace LambdaSyntax.Text

/-- The code point of a character in lower-case hexadecimal, as the escape that stands for it. -/
def hexEscape (c : Char) : List Char :=
  ['\\', 'u', '\x7b'] ++ Nat.toDigits 16 c.toNat ++ ['\x7d']

/-- What stands for a character between the quotes. -/
def escape (c : Char) : List Char :=
  match c with
  | '\x00' => ['\\', '0']
  | '\t' => ['\\', 't']
  | '\n' => ['\\', 'n']
  | '\r' => ['\\', 'r']
  | '\'' => ['\\', '\'']
  | '\\' => ['\\', '\\']
  | c => if isUnprintable c then hexEscape c else [c]

/-- A character between single quotes. -/
def quote (c : Char) : List Char :=
  '\'' :: escape c ++ ['\'']

example : quote 'é' = ['\'', 'é', '\''] := by decide +kernel

example : quote '\'' = ['\'', '\\', '\'', '\''] := by decide +kernel

example : quote '\u200b' =
    ['\'', '\\', 'u', '\x7b', '2', '0', '0', 'b', '\x7d', '\''] := by decide +kernel

end LambdaSyntax.Text
