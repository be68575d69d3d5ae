import LambdaSyntax.Proofs.Messages
import LambdaSyntax.Proofs.Outline
import LambdaSyntax.Proofs.ReadBack
import LambdaSyntax.Proofs.Trimming
import LambdaSyntax.Report

/-!
The rows of a report.

A report copies the lines it is about, quotes characters of them and prints their trees, so its
text holds whatever its input holds. Still its rows are those that it makes and no others: lines
have no newlines, a quoted newline is escaped, and names hold no white space at all. The closing
sentence is told from every other row by its first character or its spaces.

* `LineReport.Genuine.rows_verdict`: what became of a line is told in one row.
* `LineReport.Genuine.rows_tree`: the tree of a line has a row for each node, below an empty row and
  a heading.
* `Report.allValid_ofLines_iff`: when the closing sentence stands in a report.
* `Report.rows_text`: a report has these rows and no others.
* `report_has_its_rows_only`: all of this for the reports on lines.
-/

namespace LambdaSyntax

/-! ### Printed tokens -/

/-- Printed tokens hold no white space. -/
theorem Token.not_blank_of_mem_joined {tokens : List Token}
    (h : ∀ token ∈ tokens, token.Plain) : ∀ c ∈ (joined tokens).toList, Text.isBlank c = false := by
  induction tokens with
  | nil => simp [joined]
  | cons token rest ih =>
      obtain ⟨htoken, hrest⟩ := List.forall_mem_cons.mp h
      intro c hc
      rw [joined_cons, printedBehind] at hc
      rcases List.mem_append.mp hc with hc | hc
      · exact htoken.not_blank c hc
      · split at hc
        · cases hc
        · rcases List.mem_cons.mp hc with rfl | hc
          · decide
          · exact ih hrest c hc

/-! ### Outcomes -/

namespace Outcome

/-- An accepted line has tokens. -/
theorem ofLine_eq_accepted_iff {line : String} {tokens : List Token} :
    ofLine line = .accepted tokens ↔ tokenize line.toList = .ok tokens ∧ tokens ≠ [] := by
  rw [ofLine]
  cases tokenize line.toList with
  | error rejection => simp
  | ok found =>
      cases found with
      | nil => simp
      | cons first rest =>
          simp only [Outcome.accepted.injEq, Except.ok.injEq]
          constructor
          · rintro rfl
            exact ⟨rfl, List.cons_ne_nil _ _⟩
          · exact fun h => h.1

/-- A line is accepted if it has tokens and is not blank. -/
theorem isAccepted_ofLine_iff {line : String} :
    (ofLine line).isAccepted = true ↔
      (∃ tokens, tokenize line.toList = .ok tokens) ∧
        ∃ c ∈ line.toList, Text.isBlank c = false := by
  have hblank : ofLine line = .blank ↔ ¬ ∃ c ∈ line.toList, Text.isBlank c = false := by
    simp [ofLine_eq_blank_iff]
  constructor
  · intro haccepted
    cases houtcome : ofLine line with
    | accepted tokens =>
        refine ⟨⟨tokens, (ofLine_eq_accepted_iff.mp houtcome).1⟩, ?_⟩
        by_contra hall
        rw [hblank.mpr hall] at houtcome
        cases houtcome
    | rejected rejection => simp [houtcome, isAccepted] at haccepted
    | blank => simp [houtcome, isAccepted] at haccepted
  · rintro ⟨⟨tokens, htokens⟩, c, hc, hvisible⟩
    have hne : tokens ≠ [] := by
      rintro rfl
      rw [tokenize_eq_nil_iff.mp htokens c hc] at hvisible
      cases hvisible
    rw [ofLine_eq_accepted_iff.mpr ⟨htokens, hne⟩, isAccepted]

end Outcome

/-! ### What is told of a line -/

namespace LineReport

/-- The report is that on a line of notation: its line is one row, and its outcome that of the
line. -/
structure Genuine (report : LineReport) : Prop where
  newline : '\n' ∉ report.line.toList
  outcome : report.outcome = .ofLine report.line

section Verdict

variable {report : LineReport}

theorem verdict_of_accepted {tokens : List Token} (h : report.outcome = .accepted tokens) :
    report.verdict =
      "The tokenized string for input string " ++ report.line ++ " is " ++ Token.joined tokens := by
  rw [verdict, h]
  rfl

theorem verdict_of_rejected {rejection : Rejection} (h : report.outcome = .rejected rejection) :
    report.verdict = "Line " ++ toString report.number ++ " rejected: " ++ rejection.message := by
  rw [verdict, h]
  rfl

theorem verdict_of_blank (h : report.outcome = .blank) :
    report.verdict = "Line " ++ toString report.number ++ " is blank." := by
  rw [verdict, h]
  rfl

end Verdict

namespace Genuine

variable {report : LineReport} (h : report.Genuine)
include h

/-- The tokens of an accepted line are well formed. -/
theorem wellFormed {tokens : List Token} (haccepted : report.outcome = .accepted tokens) :
    Token.WellFormed tokens := by
  rw [h.outcome, Outcome.ofLine_eq_accepted_iff] at haccepted
  exact Token.wellFormed_of_tokenize haccepted.1

/-- The tokens told of an accepted line are one word. -/
theorem joined_not_blank {tokens : List Token} (haccepted : report.outcome = .accepted tokens) :
    ∀ c ∈ (Token.joined tokens).toList, Text.isBlank c = false :=
  Token.not_blank_of_mem_joined (h.wellFormed haccepted).toSpelled.plain

/-- **What became of a line is told in one row.** -/
theorem rows_verdict : Text.rows report.verdict = [report.verdict] := by
  refine Text.rows_of_not_mem ?_
  cases houtcome : report.outcome with
  | accepted tokens =>
      have hjoined : '\n' ∉ (Token.joined tokens).toList :=
        Text.not_mem_of_isBlank (by decide) (h.joined_not_blank houtcome)
      simp [verdict_of_accepted houtcome, h.newline, hjoined]
  | rejected rejection =>
      have hmessage := rejection.newline_not_mem_message
      have hnumber := Rejection.newline_not_mem_toString report.number
      simp [verdict_of_rejected houtcome, hmessage, hnumber, -Nat.toString_eq_repr]
  | blank =>
      have hnumber := Rejection.newline_not_mem_toString report.number
      simp [verdict_of_blank houtcome, hnumber, -Nat.toString_eq_repr]

end Genuine

/-- The rows that show the tree of an accepted line: an empty row, the heading, and a row for each
node. -/
def treeRows (report : LineReport) : List String :=
  match report.outcome with
  | .accepted tokens =>
    let line := report.line
    "" :: s!"Parse tree for {line}:" ::
      (Arena.ofTokens tokens).visits.map fun visit => String.ofList visit.row
  | _ => []

theorem treeRows_of_accepted {report : LineReport} {tokens : List Token}
    (h : report.outcome = .accepted tokens) :
    report.treeRows = "" :: ("Parse tree for " ++ report.line ++ ":") ::
      (Arena.ofTokens tokens).visits.map fun visit => String.ofList visit.row := by
  rw [treeRows, h]
  rfl

theorem treeRows_of_not_accepted {report : LineReport} (h : report.outcome.isAccepted = false) :
    report.treeRows = [] := by
  unfold treeRows
  split
  · rename_i houtcome
    simp [houtcome, Outcome.isAccepted] at h
  · rfl

/-- The rows of a heading, which an empty row precedes. -/
theorem rows_heading {line : String} (h : '\n' ∉ line.toList) :
    Text.rows ("\nParse tree for " ++ line ++ ":") = ["", "Parse tree for " ++ line ++ ":"] := by
  have htext : "\nParse tree for " ++ line ++ ":" =
      "" ++ "\n" ++ ("Parse tree for " ++ line ++ ":") := by
    rw [← String.append_assoc, ← String.append_assoc]
    rfl
  rw [htext, Text.rows_append_newline, Text.rows_of_not_mem (by simp),
    Text.rows_of_not_mem (by simp [h]), List.singleton_append]

/-- The rows of a trimmed dump are those of the nodes. -/
theorem rows_trimEnd_dump {tokens : List Token} (h : Token.Spelled tokens) (hne : tokens ≠ []) :
    Text.rows (String.ofList (Text.trimEnd (Arena.ofTokens tokens).dump.toList)) =
      (Arena.ofTokens tokens).visits.map fun visit => String.ofList visit.row := by
  -- The dump and the trimmed dump differ by one newline, which the last, empty row accounts for.
  have hsplit := Arena.splitOn_dump h
  rw [Arena.trimEnd_dump h hne, List.splitOn_append_cons_self] at hsplit
  rw [Text.rows, String.toList_ofList, List.append_cancel_right hsplit, List.map_map]
  rfl

/-- **The tree of a line has these rows.** -/
theorem Genuine.rows_tree {report : LineReport} (h : report.Genuine) :
    report.tree.flatMap Text.rows = report.treeRows := by
  cases houtcome : report.outcome with
  | accepted tokens =>
      have hne := (Outcome.ofLine_eq_accepted_iff.mp (h.outcome.symm.trans houtcome)).2
      have htree : report.tree = ["\nParse tree for " ++ report.line ++ ":",
          String.ofList (Text.trimEnd (Arena.ofTokens tokens).dump.toList)] := by
        rw [tree, houtcome]
        rfl
      rw [htree, List.flatMap_cons, List.flatMap_singleton, rows_heading h.newline,
        rows_trimEnd_dump (h.wellFormed houtcome).toSpelled hne, treeRows_of_accepted houtcome]
      rfl
  | rejected rejection => simp [tree, treeRows, houtcome]
  | blank => simp [tree, treeRows, houtcome]

/-- Whether a row begins as the rows do that tell what became of a line. -/
def tellsOfLine (row : String) : Bool :=
  row.toList.head? == some 'T' || row.toList.head? == some 'L'

theorem tellsOfLine_verdict (report : LineReport) : tellsOfLine report.verdict = true := by
  cases houtcome : report.outcome with
  | accepted tokens => simp [tellsOfLine, verdict_of_accepted houtcome]
  | rejected rejection => simp [tellsOfLine, verdict_of_rejected houtcome]
  | blank => simp [tellsOfLine, verdict_of_blank houtcome]

/-- The closing sentence is not told of a line. -/
theorem verdict_ne_closing (report : LineReport) : report.verdict ≠ "All lines are valid" := by
  intro hequal
  have htells := report.tellsOfLine_verdict
  rw [hequal] at htells
  revert htells
  decide

/-- The closing sentence is no row of a node: it would read back as a name with spaces. -/
theorem row_ne_closing {visit : Visit} (h : visit.node.label.Plain) :
    String.ofList visit.row ≠ "All lines are valid" := by
  intro hrow
  have hread := Visit.ofRow_row h
  rw [← String.toList_ofList (l := visit.row), hrow] at hread
  have hlabel : visit.node.label = .name "All lines are valid" := (congrArg Entry.label hread).symm
  exact absurd (h _ hlabel) (by decide)

theorem Genuine.closing_not_mem_treeRows {report : LineReport} (h : report.Genuine) :
    "All lines are valid" ∉ report.treeRows := by
  cases houtcome : report.outcome with
  | accepted tokens =>
      have hplain := Arena.plain_of_mem_visits (h.wellFormed houtcome).toSpelled
      have hheading : "Parse tree for " ++ report.line ++ ":" ≠ "All lines are valid" := by
        intro hequal
        have hfirst := congrArg (·.toList.head?) hequal
        simp at hfirst
      rw [treeRows_of_accepted houtcome]
      simp only [List.mem_cons, List.mem_map, not_or, not_exists, not_and]
      exact ⟨by decide, hheading.symm, fun visit hvisit => row_ne_closing (hplain visit hvisit)⟩
  | rejected rejection => simp [treeRows, houtcome]
  | blank => simp [treeRows, houtcome]

end LineReport

/-! ### Reports -/

namespace Report

/-- A report repeats the lines that it is about. -/
theorem map_line_ofLines (lines : List String) :
    (ofLines lines).lines.map LineReport.line = lines :=
  List.ext_getElem (by simp [ofLines]) (by simp [ofLines])

theorem outcome_of_mem_ofLines {lines : List String} :
    ∀ report ∈ (ofLines lines).lines, report.outcome = .ofLine report.line := by
  intro report hmem
  obtain ⟨index, hindex, rfl⟩ := List.mem_mapIdx.mp hmem
  rfl

/-- A report on lines is made of the reports on each. -/
theorem genuine_of_mem_ofLines {lines : List String} (h : ∀ line ∈ lines, '\n' ∉ line.toList) :
    ∀ report ∈ (ofLines lines).lines, report.Genuine := by
  intro report hmem
  have hline : report.line ∈ lines := by
    rw [← map_line_ofLines lines]
    exact List.mem_map_of_mem hmem
  exact ⟨h _ hline, outcome_of_mem_ofLines report hmem⟩

/-- **When the closing sentence stands in a report.** -/
theorem allValid_ofLines_iff {lines : List String} :
    (ofLines lines).allValid = true ↔ ∀ line ∈ lines,
      (∃ tokens, tokenize line.toList = .ok tokens) ∧
        ∃ c ∈ line.toList, Text.isBlank c = false := by
  have haccepted : (ofLines lines).allValid = true ↔
      ∀ report ∈ (ofLines lines).lines, (Outcome.ofLine report.line).isAccepted = true := by
    rw [allValid, acceptedCount, beq_iff_eq, List.countP_eq_length]
    refine forall₂_congr fun report hmem => ?_
    rw [outcome_of_mem_ofLines report hmem]
  rw [haccepted, ← List.forall_mem_map (P := fun line => (Outcome.ofLine line).isAccepted = true),
    map_line_ofLines]
  exact forall₂_congr fun _ _ => Outcome.isAccepted_ofLine_iff

/-- A report is never empty. -/
theorem paragraphs_ne_nil (report : Report) (printTrees : Bool) :
    report.paragraphs printTrees ≠ [] := by
  obtain ⟨lines⟩ := report
  cases lines with
  | nil => simp [paragraphs, allValid, acceptedCount]
  | cons first rest => simp [paragraphs]

/-- **The rows of a report.** -/
theorem rows_text {report : Report} (h : ∀ line ∈ report.lines, line.Genuine) (printTrees : Bool) :
    Text.rows (report.text printTrees) =
      report.lines.map LineReport.verdict
        ++ (if report.allValid then ["All lines are valid"] else [])
        ++ (if printTrees then report.lines.flatMap LineReport.treeRows else []) := by
  have hverdicts : (report.lines.map LineReport.verdict).flatMap Text.rows =
      report.lines.map LineReport.verdict := by
    rw [List.flatMap_map, List.flatMap_congr fun line hline => (h line hline).rows_verdict]
    exact List.map_eq_flatMap.symm
  have hclosing : Text.rows "All lines are valid" = ["All lines are valid"] :=
    Text.rows_of_not_mem (by simp)
  have htrees : (report.lines.flatMap LineReport.tree).flatMap Text.rows =
      report.lines.flatMap LineReport.treeRows := by
    rw [List.flatMap_assoc, List.flatMap_congr fun line hline => (h line hline).rows_tree]
  rw [text, Text.rows_intercalate (report.paragraphs_ne_nil printTrees), paragraphs,
    List.flatMap_append, List.flatMap_append, hverdicts]
  congr 1
  · congr 1
    split
    · simp [hclosing]
    · rfl
  · split
    · exact htrees
    · rfl

/-- The closing sentence stands behind what is told of the lines, and nowhere else. -/
theorem rows_getElem?_eq_closing_iff {report : Report} (h : ∀ line ∈ report.lines, line.Genuine)
    (printTrees : Bool) (index : Nat) :
    (Text.rows (report.text printTrees))[index]? = some "All lines are valid" ↔
      index = report.lines.length ∧ report.allValid = true := by
  have hverdicts : "All lines are valid" ∉ report.lines.map LineReport.verdict := by
    rintro hmem
    obtain ⟨line, -, hline⟩ := List.mem_map.mp hmem
    exact line.verdict_ne_closing hline
  have htrees : "All lines are valid" ∉
      if printTrees then report.lines.flatMap LineReport.treeRows else [] := by
    split
    · rintro hmem
      obtain ⟨line, hline, hrow⟩ := List.mem_flatMap.mp hmem
      exact (h line hline).closing_not_mem_treeRows hrow
    · exact List.not_mem_nil
  rw [rows_text h, List.append_assoc]
  rcases Nat.lt_or_ge index report.lines.length with hbefore | hbehind
  · rw [List.getElem?_append_left (by simpa using hbefore)]
    constructor
    · intro hrow
      exact absurd (List.mem_of_getElem? hrow) hverdicts
    · rintro ⟨rfl, -⟩
      exact absurd hbefore (Nat.lt_irrefl _)
  · obtain ⟨offset, rfl⟩ := Nat.exists_eq_add_of_le hbehind
    rw [List.getElem?_append_right (by simp), List.length_map, Nat.add_sub_cancel_left]
    cases hvalid : report.allValid with
    | false => simpa using fun hrow => htrees (List.mem_of_getElem? hrow)
    | true =>
        cases offset with
        | zero => simp
        | succ offset => simpa using fun hrow => htrees (List.mem_of_getElem? hrow)

end Report

/-- **A report cannot be forged.** Whatever the lines are, the report on them has a row for each, in
order; then the closing sentence if all lines are accepted and none is blank; and then on request,
for each accepted line, an empty row, a heading and a row for each node of its tree. The closing
sentence is no other row. -/
theorem report_has_its_rows_only (lines : List String) (h : ∀ line ∈ lines, '\n' ∉ line.toList)
    (printTrees : Bool) :
    let report := Report.ofLines lines
    Text.rows (report.text printTrees) =
        report.lines.map LineReport.verdict
          ++ (if report.allValid then ["All lines are valid"] else [])
          ++ (if printTrees then report.lines.flatMap LineReport.treeRows else []) ∧
      report.lines.map LineReport.line = lines ∧
      (report.allValid = true ↔ ∀ line ∈ lines,
        (∃ tokens, tokenize line.toList = .ok tokens) ∧
          ∃ c ∈ line.toList, Text.isBlank c = false) ∧
      (∀ line ∈ report.lines, ∀ tokens, line.outcome = .accepted tokens →
        ∃ rows, line.treeRows = "" :: ("Parse tree for " ++ line.line ++ ":") :: rows ∧
          rows.length = (Arena.ofTokens tokens).size) ∧
      (∀ line ∈ report.lines, line.outcome.isAccepted = false → line.treeRows = []) ∧
      ∀ index, (Text.rows (report.text printTrees))[index]? = some "All lines are valid" ↔
        index = lines.length ∧ report.allValid = true := by
  intro report
  have hgenuine := Report.genuine_of_mem_ofLines h
  refine ⟨Report.rows_text hgenuine printTrees, Report.map_line_ofLines lines,
    Report.allValid_ofLines_iff, ?_, ?_, ?_⟩
  · intro line _ tokens houtcome
    refine ⟨_, LineReport.treeRows_of_accepted houtcome, ?_⟩
    rw [List.length_map, Arena.length_visits_ofTokens]
  · intro line _ houtcome
    exact LineReport.treeRows_of_not_accepted houtcome
  · intro index
    have hlength : report.lines.length = lines.length := by
      simp [report, Report.ofLines]
    rw [Report.rows_getElem?_eq_closing_iff hgenuine, hlength]

/-- A line may spell the closing sentence. It is repeated only as a part of other rows. -/
theorem line_that_spells_the_closing_sentence :
    let report := Report.ofLines ["All lines are valid", "("]
    (∀ line ∈ ["All lines are valid", "("], '\n' ∉ line.toList) ∧
      Text.rows (report.text true) =
        ["The tokenized string for input string All lines are valid is All_lines_are_valid",
          "Line 2 rejected: Bracket ( at index 0 is not matched with a ).",
          "",
          "Parse tree for All lines are valid:",
          "All", "  lines", "  are", "  valid"] ∧
      ∀ index, (Text.rows (report.text true))[index]? = some "All lines are valid" ↔
        index = 2 ∧ report.allValid = true := by
  intro report
  have hlines : ∀ line ∈ ["All lines are valid", "("], '\n' ∉ line.toList := by decide
  obtain ⟨hrows, -, -, -, -, hclosing⟩ := report_has_its_rows_only _ hlines true
  refine ⟨hlines, ?_, hclosing⟩
  rw [hrows]
  decide

end LambdaSyntax
