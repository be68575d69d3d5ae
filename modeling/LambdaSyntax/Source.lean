import LambdaSyntax.Text.Lines

/-!
Source files.

A source file holds UTF-8 text, with one line of notation in each of its lines. A file that is not
valid as a whole has no lines at all.
-/

namespace LambdaSyntax

/-- The files that can be read, by path. -/
abbrev Files := String → Option ByteArray

/-- Why a file has no lines to check. -/
inductive ReadError where
  /-- There is no file of that path. -/
  | missing
  /-- The file as a whole is not valid UTF-8. -/
  | invalidUtf8
deriving DecidableEq, Repr

/-- The sentence that reports an unreadable file. -/
def ReadError.message : ReadError → String
  | .missing => "No such file or directory (os error 2)"
  | .invalidUtf8 => "stream did not contain valid UTF-8"

/-- The text of a file. -/
def Files.text (files : Files) (path : String) : Except ReadError String :=
  match files path with
  | none => .error .missing
  | some bytes =>
    match String.fromUTF8? bytes with
    | none => .error .invalidUtf8
    | some text => .ok text

/-- The lines of a file. -/
def Files.lines (files : Files) (path : String) : Except ReadError (List String) :=
  (files.text path).map Text.lines

end LambdaSyntax
