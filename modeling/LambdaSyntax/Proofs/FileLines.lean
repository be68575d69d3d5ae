import LambdaSyntax.Proofs.Rows
import LambdaSyntax.Proofs.Trimming

/-!
The lines of a file, however they are ended.

Every text is made of pieces that each end in a newline, and of a last piece that does not
(`Text.exists_pieces`). So the lines of a file are read off its text piece by piece: a file written
row by row gives back the lines of its rows, whatever white space stands behind each line, carriage
returns included. The newline behind the last row makes no difference unless the row is empty, for
then nothing else tells that there is a row.

* `Text.splitOn_pieces`, `Text.pieces_eq`: the pieces of a text that is put together from them.
* `Text.lines_eq_map_trimEnd`: it does not matter whether a carriage return before a newline is
  taken for a part of the newline.
* `Text.length_pieces`: the number of lines, by the newlines of the text.
* `file_lines_by_rows`: writing rows to a file and reading its lines.
-/

namespace LambdaSyntax

namespace Text

/-! ### Trimmed texts -/

/-- The text does not end in white space. -/
def Trimmed (text : List Char) : Prop :=
  ∀ c ∈ text.getLast?, isBlank c = false

instance (text : List Char) : Decidable (Trimmed text) :=
  Option.decidableForallMem text.getLast?

theorem trimmed_trimEnd (text : List Char) : Trimmed (trimEnd text) := by
  intro c hc
  rw [trimEnd, List.getLast?_reverse] at hc
  have hhead := List.head?_dropWhile_not isBlank text.reverse
  rw [hc] at hhead
  simpa using hhead

theorem trimEnd_of_trimmed {text : List Char} (h : Trimmed text) : trimEnd text = text := by
  rcases List.eq_nil_or_concat text with rfl | ⟨before, c, rfl⟩
  · rfl
  · rw [List.concat_eq_append] at h ⊢
    exact trimEnd_concat_of_not_blank (h c List.getLast?_concat)

theorem trimEnd_prefix (text : List Char) : trimEnd text <+: text := by
  obtain ⟨blanks, htext, -⟩ := exists_trimEnd_append text
  exact ⟨blanks, htext.symm⟩

/-! ### Pieces -/

/-- **Every text is made of pieces that end in a newline, and of what follows the last of them.** -/
theorem exists_pieces (text : List Char) :
    ∃ (ended : List (List Char)) (last : List Char),
      text = ended.flatMap (· ++ ['\n']) ++ last ∧ (∀ piece ∈ ended, '\n' ∉ piece) ∧
        '\n' ∉ last := by
  induction text with
  | nil => exact ⟨[], [], rfl, by simp, by simp⟩
  | cons c text ih =>
      obtain ⟨ended, last, rfl, hended, hlast⟩ := ih
      by_cases hc : c = '\n'
      · subst hc
        exact ⟨[] :: ended, last, rfl, by simpa using hended, hlast⟩
      · cases ended with
        | nil => exact ⟨[], c :: last, rfl, by simp, by simp [Ne.symm hc, hlast]⟩
        | cons piece ended =>
            obtain ⟨hpiece, hrest⟩ := List.forall_mem_cons.mp hended
            refine ⟨(c :: piece) :: ended, last, rfl, List.forall_mem_cons.mpr ⟨?_, hrest⟩, hlast⟩
            simp [Ne.symm hc, hpiece]

section Pieces

variable {ended : List (List Char)} {last : List Char} (hended : ∀ piece ∈ ended, '\n' ∉ piece)
  (hlast : '\n' ∉ last)
include hended hlast

theorem pieces_eq :
    pieces (ended.flatMap (· ++ ['\n']) ++ last) =
      ended ++ if last = [] then [] else [last] := by
  simp only [pieces, splitOn_flatMap_newline_append hended hlast, List.getLast?_concat,
    Option.some.injEq, List.dropLast_concat]
  split
  · rw [List.append_nil]
  · rfl

theorem count_newline : (ended.flatMap (· ++ ['\n']) ++ last).count '\n' = ended.length := by
  induction ended with
  | nil => simpa using List.count_eq_zero.mpr hlast
  | cons piece ended ih =>
      obtain ⟨hpiece, hrest⟩ := List.forall_mem_cons.mp hended
      rw [List.flatMap_cons, List.append_assoc, List.count_append, ih hrest, List.count_append,
        List.count_eq_zero.mpr hpiece, List.count_singleton_self, List.length_cons]
      omega

/-- A text has something behind its last newline if it is not empty and does not end in one. -/
theorem last_ne_nil_iff :
    last ≠ [] ↔ ended.flatMap (· ++ ['\n']) ++ last ≠ [] ∧
      (ended.flatMap (· ++ ['\n']) ++ last).getLast? ≠ some '\n' := by
  constructor
  · intro hne
    refine ⟨List.append_ne_nil_of_right_ne_nil _ hne, ?_⟩
    rw [List.getLast?_append_of_ne_nil _ hne]
    exact fun hnewline => hlast (List.mem_of_getLast? hnewline)
  · rintro ⟨hne, hnewline⟩ rfl
    rw [List.append_nil] at hne hnewline
    rcases List.eq_nil_or_concat ended with rfl | ⟨before, piece, rfl⟩
    · exact hne rfl
    · simp at hnewline

end Pieces

theorem newline_not_mem_of_mem_pieces {text piece : List Char} (h : piece ∈ pieces text) :
    '\n' ∉ piece := by
  obtain ⟨ended, last, rfl, hended, hlast⟩ := exists_pieces text
  rw [pieces_eq hended hlast] at h
  rcases List.mem_append.mp h with h | h
  · exact hended piece h
  · split at h
    · cases h
    · rwa [List.mem_singleton.mp h]

/-- **The number of pieces.** Each newline ends one, and there is one more if the text goes on
behind the last newline. -/
theorem length_pieces (text : List Char) :
    (pieces text).length =
      text.count '\n' + if text ≠ [] ∧ text.getLast? ≠ some '\n' then 1 else 0 := by
  obtain ⟨ended, last, rfl, hended, hlast⟩ := exists_pieces text
  simp only [pieces_eq hended hlast, count_newline hended hlast, ← last_ne_nil_iff hended hlast,
    List.length_append]
  by_cases hnil : last = []
  · simp [hnil]
  · simp [hnil]

/-! ### Carriage returns -/

/-- A piece without the carriage return at its end. -/
def withoutReturn (piece : List Char) : List Char :=
  if piece.getLast? = some '\r' then piece.dropLast else piece

/-- The lines of a text before they are trimmed, where a carriage return before a newline is taken
for a part of it. Behind the last newline a carriage return is a character like any other. -/
def untrimmedLines (text : List Char) : List (List Char) :=
  let pieces := text.splitOn '\n'
  let last := pieces.getLastD []
  pieces.dropLast.map withoutReturn ++ if last = [] then [] else [last]

theorem trimEnd_withoutReturn (piece : List Char) :
    trimEnd (withoutReturn piece) = trimEnd piece := by
  unfold withoutReturn
  split
  · rename_i hreturn
    have hpiece : piece.dropLast ++ ['\r'] = piece := List.dropLast_append_getLast? '\r' hreturn
    have hblank : ∀ c ∈ ['\r'], isBlank c = true := List.forall_mem_singleton.mpr (by decide)
    rw [← trimEnd_append_of_blank hblank, hpiece]
  · rfl

/-- **Trimming takes care of carriage returns.** -/
theorem lines_eq_map_trimEnd (text : String) :
    lines text = (untrimmedLines text.toList).map fun line => String.ofList (trimEnd line) := by
  obtain ⟨ended, last, htext, hended, hlast⟩ := exists_pieces text.toList
  simp only [lines, untrimmedLines, htext, pieces_eq hended hlast,
    splitOn_flatMap_newline_append hended hlast, List.dropLast_concat, List.getLastD_concat,
    List.map_append, List.map_map, Function.comp_def, trimEnd_withoutReturn]

/-! ### Rows -/

/-- A row of a file: a line that does not end in white space, and white space behind it. -/
structure Row where
  line : String
  blanks : String
  trimmed : Trimmed line.toList
  blank : ∀ c ∈ blanks.toList, isBlank c = true
  /-- The row is one row. -/
  newline : '\n' ∉ line.toList ∧ '\n' ∉ blanks.toList

namespace Row

/-- The text of a row, without the newline that may end it. -/
def text (row : Row) : String :=
  row.line ++ row.blanks

/-- The text of several rows, with a newline behind each. -/
def written (rows : List Row) : String :=
  String.join (rows.map fun row => row.text ++ "\n")

variable {row : Row}

theorem newline_not_mem_text : '\n' ∉ row.text.toList := by
  simp [text, row.newline]

/-- The line of a row is what trimming leaves of it. -/
theorem trimEnd_text : String.ofList (trimEnd row.text.toList) = row.line := by
  rw [text, String.toList_append, trimEnd_append_of_blank row.blank, trimEnd_of_trimmed row.trimmed,
    String.ofList_toList]

theorem toList_written (rows : List Row) :
    (written rows).toList = (rows.map fun row => row.text.toList).flatMap (· ++ ['\n']) := by
  simp [written, String.toList_join, List.flatMap_map]

/-- **The lines of a text that is written row by row.** Behind the last newline, the text of a row
that is not empty is read as the row. -/
theorem lines_written_append (rows : List Row) (last : String) (hlast : '\n' ∉ last.toList) :
    lines (written rows ++ last) =
      rows.map line ++ if last = "" then [] else [String.ofList (trimEnd last.toList)] := by
  have hrows : ∀ piece ∈ rows.map fun row => row.text.toList, '\n' ∉ piece :=
    List.forall_mem_map.mpr fun row _ => newline_not_mem_text
  rw [lines, String.toList_append, toList_written, pieces_eq hrows hlast, List.map_append,
    List.map_map]
  congr 1
  · exact List.map_congr_left fun row _ => trimEnd_text
  · by_cases hnil : last = ""
    · simp [hnil]
    · simp [hnil]

end Row

end Text

/-- **Reading a file gives back the lines that it was written from**, whatever white space stands
behind each, and whether the last row ends in a newline or not, if it is not empty. Whatever text a
file holds, its lines have no newline and no white space at their ends, and there is one for each
newline and one for what follows the last newline. To take carriage returns before newlines for
parts of these would make no difference. -/
theorem file_lines_by_rows (files : Files) (path : String) :
    (∀ rows : List Text.Row, files path = some (Text.Row.written rows).toUTF8 →
      files.lines path = .ok (rows.map Text.Row.line)) ∧
    (∀ (rows : List Text.Row) (last : Text.Row), last.text ≠ "" →
      files path = some (Text.Row.written rows ++ last.text).toUTF8 →
        files.lines path = .ok ((rows ++ [last]).map Text.Row.line)) ∧
    ∀ text : String, files path = some text.toUTF8 →
      ∃ lines, files.lines path = .ok lines ∧
        (∀ line ∈ lines, '\n' ∉ line.toList ∧ Text.Trimmed line.toList) ∧
        lines.length = text.toList.count '\n' +
          (if text ≠ "" ∧ text.toList.getLast? ≠ some '\n' then 1 else 0) ∧
        lines = (Text.untrimmedLines text.toList).map fun line =>
          String.ofList (Text.trimEnd line) := by
  have hread : ∀ text : String, files path = some text.toUTF8 →
      files.lines path = .ok (Text.lines text) := by
    intro text h
    rw [Files.lines, Files.text_of_utf8 h]
    rfl
  refine ⟨fun rows h => ?_, fun rows last hne h => ?_, fun text h => ?_⟩
  · have hlines := Text.Row.lines_written_append rows "" List.not_mem_nil
    rw [hread _ h]
    simpa using hlines
  · have hlines := Text.Row.lines_written_append rows last.text last.newline_not_mem_text
    rw [hread _ h, hlines, if_neg hne, Text.Row.trimEnd_text, List.map_append]
    rfl
  · refine ⟨Text.lines text, hread text h, ?_, ?_, Text.lines_eq_map_trimEnd text⟩
    · rw [Text.lines, List.forall_mem_map]
      intro piece hpiece
      rw [String.toList_ofList]
      refine ⟨fun hmem => ?_, Text.trimmed_trimEnd piece⟩
      exact Text.newline_not_mem_of_mem_pieces hpiece ((Text.trimEnd_prefix piece).subset hmem)
    · rw [Text.lines, List.length_map, Text.length_pieces]
      simp only [ne_eq, String.toList_eq_nil_iff]

/-- A file with two carriage returns before a newline, a line separator, which is white space and
ends no line, and a carriage return behind its last newline, which is a row. -/
theorem file_of_three_rows :
    let rows : List Text.Row := [⟨"x y", " \r\r", by decide, List.all_eq_true.mp rfl, by decide⟩,
      ⟨"\\", "\u2028", by decide, List.all_eq_true.mp rfl, by decide⟩]
    let last : Text.Row := ⟨"", "\r", by decide, List.all_eq_true.mp rfl, by decide⟩
    let files : Files := fun path =>
      if path = "ended" then some "x y \r\r\n\\\u2028\n".toUTF8
      else if path = "open" then some "x y \r\r\n\\\u2028\n\r".toUTF8
      else none
    (files "ended" = some (Text.Row.written rows).toUTF8 ∧
        files.lines "ended" = .ok ["x y", "\\"]) ∧
      (last.text ≠ "" ∧ files "open" = some (Text.Row.written rows ++ last.text).toUTF8 ∧
        files.lines "open" = .ok ["x y", "\\", ""]) ∧
      ∃ lines, files.lines "open" = .ok lines ∧ lines.length = 3 := by
  intro rows last files
  have hended : files "ended" = some (Text.Row.written rows).toUTF8 := rfl
  have hopen : files "open" = some (Text.Row.written rows ++ last.text).toUTF8 := rfl
  have hne : last.text ≠ "" := by decide
  have hrows := (file_lines_by_rows files "ended").1 rows hended
  obtain ⟨-, hlast, hany⟩ := file_lines_by_rows files "open"
  obtain ⟨lines, hlines, -, hlength, -⟩ := hany "x y \r\r\n\\\u2028\n\r" rfl
  exact ⟨⟨hended, hrows⟩, ⟨hne, hopen, hlast rows last hne hopen⟩, lines, hlines,
    hlength.trans (by decide)⟩

end LambdaSyntax
