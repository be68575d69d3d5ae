import LambdaSyntax.Rejection

/-!
Matching of the brackets of a line.

Only the two bracket characters count here: a dot opens a group too, but needs no partner. The
brackets are checked before anything else about a line, so a bracket without a partner is reported
whatever other faults the line has.
-/

namespace LambdaSyntax.Brackets

/-- Reads the brackets of `line`, which starts at `position`, with the positions of the brackets
that are open before it, innermost first. The first closing bracket without a partner is reported;
failing that, the innermost bracket that is open at the end. -/
def checkFrom (position : Nat) (opened : List Nat) (line : List Char) : Except Rejection Unit :=
  match line with
  | [] =>
    match opened with
    | [] => .ok ()
    | innermost :: _ => .error ⟨.unmatchedOpening, innermost⟩
  | c :: rest =>
    if c = '(' then
      checkFrom (position + 1) (position :: opened) rest
    else if c = ')' then
      match opened with
      | [] => .error ⟨.unmatchedClosing, position⟩
      | _ :: outer => checkFrom (position + 1) outer rest
    else
      checkFrom (position + 1) opened rest

/-- Checks that the brackets of a line match. -/
def check (line : List Char) : Except Rejection Unit :=
  checkFrom 0 [] line

end LambdaSyntax.Brackets
