/-!
Character classes given as tables of code points.

A table lists inclusive ranges `(first, last)` in increasing order. The ranges of the tables in this
library do not touch, which `Ranges.increasing` tests, so there is one table for each class.
-/

namespace LambdaSyntax.Text

/-- A table of inclusive code-point ranges. -/
abbrev Ranges := List (Nat × Nat)

/-- Whether a character's code point lies in one of the ranges. -/
def Ranges.covers (ranges : Ranges) (c : Char) : Bool :=
  ranges.any fun (first, last) => decide (first ≤ c.toNat) && decide (c.toNat ≤ last)

/-- Each range is nonempty and leaves a gap before the next one. -/
def Ranges.increasing : Ranges → Bool
  | [] => true
  | [(first, last)] => decide (first ≤ last)
  | (first, last) :: (next, final) :: rest =>
    decide (first ≤ last) && decide (last + 1 < next) && Ranges.increasing ((next, final) :: rest)

theorem Ranges.covers_eq_true_iff {ranges : Ranges} {c : Char} :
    ranges.covers c = true ↔ ∃ r ∈ ranges, r.1 ≤ c.toNat ∧ c.toNat ≤ r.2 := by
  simp [Ranges.covers]

end LambdaSyntax.Text
