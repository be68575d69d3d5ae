import LambdaSyntax.Text.Blank

/-!
Texts and their rows.

The rows of a text are what stands between its newlines. A text that is put together from
paragraphs has their rows, in order (`Text.rows_intercalate`), so a paragraph without newlines is
one row of it and nothing in it can pass for more.
-/

namespace LambdaSyntax

/-- A sequence is divided where a predicate fails for the first time. -/
theorem takeWhile_dropWhile_append {α : Type} {p : α → Bool} {inside behind : List α}
    (hinside : ∀ x ∈ inside, p x = true) (hbehind : ∀ x ∈ behind.head?, p x = false) :
    (inside ++ behind).takeWhile p = inside ∧ (inside ++ behind).dropWhile p = behind := by
  rw [List.takeWhile_append_of_pos hinside, List.dropWhile_append_of_pos hinside]
  cases behind with
  | nil => simp
  | cons x behind => simp [hbehind x rfl]

namespace Text

/-- A text without white space does not hold a given one. -/
theorem not_mem_of_isBlank {text : List Char} {blank : Char} (hblank : isBlank blank = true)
    (h : ∀ c ∈ text, isBlank c = false) : blank ∉ text := by
  intro hmem
  rw [h blank hmem] at hblank
  cases hblank

/-- Texts that each end in a newline are found again between the newlines, and so is what stands
behind the last one. -/
theorem splitOn_flatMap_newline_append {rows : List (List Char)} {last : List Char}
    (h : ∀ row ∈ rows, '\n' ∉ row) (hlast : '\n' ∉ last) :
    (rows.flatMap (· ++ ['\n']) ++ last).splitOn '\n' = rows ++ [last] := by
  induction rows with
  | nil => exact List.splitOn_eq_singleton hlast
  | cons row rows ih =>
      obtain ⟨hrow, hrows⟩ := List.forall_mem_cons.mp h
      rw [List.flatMap_cons, List.append_assoc, List.append_assoc, List.singleton_append,
        List.splitOn_append_cons_self_of_not_mem hrow, ih hrows, List.cons_append]

/-- Behind the last newline there may be nothing. -/
theorem splitOn_flatMap_newline {rows : List (List Char)} (h : ∀ row ∈ rows, '\n' ∉ row) :
    (rows.flatMap (· ++ ['\n'])).splitOn '\n' = rows ++ [[]] := by
  rw [← splitOn_flatMap_newline_append h List.not_mem_nil, List.append_nil]

/-- The rows of a text: what stands between its newlines. -/
def rows (text : String) : List String :=
  (text.toList.splitOn '\n').map String.ofList

theorem rows_of_not_mem {text : String} (h : '\n' ∉ text.toList) : rows text = [text] := by
  rw [rows, List.splitOn_eq_singleton h, List.map_singleton, String.ofList_toList]

theorem rows_append_newline (first second : String) :
    rows (first ++ "\n" ++ second) = rows first ++ rows second := by
  have hlist : (first ++ "\n" ++ second).toList = first.toList ++ '\n' :: second.toList := by
    simp
  rw [rows, hlist, List.splitOn_append_cons_self, List.map_append, rows, rows]

/-- **The rows of paragraphs put together are the rows of each**, in order. -/
theorem rows_intercalate {paragraphs : List String} (hne : paragraphs ≠ []) :
    rows ("\n".intercalate paragraphs) = paragraphs.flatMap rows := by
  induction paragraphs with
  | nil => exact absurd rfl hne
  | cons first rest ih =>
      cases rest with
      | nil => simp
      | cons next rest =>
          rw [String.intercalate_cons_cons, rows_append_newline, ih (List.cons_ne_nil next rest)]
          rfl

end Text

end LambdaSyntax
