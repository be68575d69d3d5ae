import LambdaSyntax.Text.Ranges

/-!
White space.

A character is blank when it has the Unicode property White_Space. That is a wider class than the
ASCII blanks: it holds the no-break space, the line and paragraph separators and the ideographic
space, but neither the zero-width space nor the byte order mark.
-/

namespace LambdaSyntax.Text

/-- The code points with the property White_Space. -/
def blankRanges : Ranges :=
  [(0x9, 0xd), (0x20, 0x20), (0x85, 0x85), (0xa0, 0xa0), (0x1680, 0x1680), (0x2000, 0x200a),
    (0x2028, 0x2029), (0x202f, 0x202f), (0x205f, 0x205f), (0x3000, 0x3000)]

/-- Whether a character is white space. -/
def isBlank (c : Char) : Bool :=
  blankRanges.covers c

/-- A text without the white space at its end. -/
def trimEnd (text : List Char) : List Char :=
  (text.reverse.dropWhile isBlank).reverse

example : blankRanges.increasing = true := by decide

example : trimEnd ['\t', 'x', ' ', 'y', ' ', '\u3000'] = ['\t', 'x', ' ', 'y'] := by decide

/-! ### Trimming -/

/-- White space at the end is dropped. -/
theorem trimEnd_append_of_blank {text blanks : List Char}
    (h : ∀ c ∈ blanks, isBlank c = true) : trimEnd (text ++ blanks) = trimEnd text := by
  simp only [trimEnd, List.reverse_append]
  rw [List.dropWhile_append_of_pos (by simpa using h)]

/-- A text that ends in a character that is not white space stays as it is. -/
theorem trimEnd_concat_of_not_blank {text : List Char} {c : Char} (h : isBlank c = false) :
    trimEnd (text ++ [c]) = text ++ [c] := by
  simp [trimEnd, h]

end LambdaSyntax.Text
