import LambdaSyntax.Proofs.ReportRows

/-!
What a report tells.

The text of a report tells the outcome of every line, although it repeats the lines as they are and
a line may contain whatever the report says about it. The rows about lines are told from the others
by their first character, so there are as many of them as lines; and in such a row the tokens are
the last word, whatever the line before them contains.

* `LineReport.outcome_eq_of_verdict_eq`: what is told of a line tells its outcome.
* `Report.takeWhile_rows`: the rows about lines are found in the text.
* `report_tells_outcomes`: reports with the same text are about lines with the same outcomes.
-/

namespace LambdaSyntax

/-! ### The last word of a text -/

/-- What stands behind the last white space of a text. -/
def Text.lastWord (text : List Char) : List Char :=
  (text.reverse.takeWhile fun c => !isBlank c).reverse

theorem Text.lastWord_append {before word : List Char} {blank : Char}
    (hblank : isBlank blank = true) (hword : ∀ c ∈ word, isBlank c = false) :
    lastWord (before ++ blank :: word) = word := by
  have hinside : ∀ c ∈ word.reverse, (!isBlank c) = true := by
    simpa using hword
  have hbehind : ∀ c ∈ (blank :: before.reverse).head?, (!isBlank c) = false := by
    simpa using hblank
  have hreverse : (before ++ blank :: word).reverse = word.reverse ++ blank :: before.reverse := by
    simp
  rw [lastWord, hreverse, (takeWhile_dropWhile_append hinside hbehind).1, List.reverse_reverse]

/-- Printed tokens tell the tokens. -/
theorem Token.joined_inj {tokens tokens' : List Token} (h : WellFormed tokens)
    (h' : WellFormed tokens') (hjoined : joined tokens = joined tokens') : tokens = tokens' := by
  have hread := tokenize_respaced h
  rw [hjoined, tokenize_respaced h'] at hread
  exact (Except.ok.inj hread).symm

namespace LineReport

theorem Genuine.lastWord_verdict {report : LineReport} (h : report.Genuine) {tokens : List Token}
    (houtcome : report.outcome = .accepted tokens) :
    Text.lastWord report.verdict.toList = (Token.joined tokens).toList := by
  have hverdict : report.verdict.toList =
      ("The tokenized string for input string " ++ report.line ++ " is").toList ++
        ' ' :: (Token.joined tokens).toList := by
    simp [verdict_of_accepted houtcome]
  rw [hverdict, Text.lastWord_append (by decide) (h.joined_not_blank houtcome)]

/-- **What is told of a line tells its outcome**, its number being known. -/
theorem outcome_eq_of_verdict_eq {report report' : LineReport} (h : report.Genuine)
    (h' : report'.Genuine) (hnumber : report.number = report'.number)
    (hverdict : report.verdict = report'.verdict) : report.outcome = report'.outcome := by
  have htexts := congrArg String.toList hverdict
  cases houtcome : report.outcome with
  | accepted tokens =>
      cases houtcome' : report'.outcome with
      | accepted tokens' =>
          -- The lines cannot be cut off at the front, since one may contain " is " before its end.
          have hjoined := congrArg Text.lastWord htexts
          rw [h.lastWord_verdict houtcome, h'.lastWord_verdict houtcome'] at hjoined
          rw [Token.joined_inj (h.wellFormed houtcome) (h'.wellFormed houtcome')
            (String.toList_inj.mp hjoined)]
      | rejected rejection' =>
          simp [verdict_of_accepted houtcome, verdict_of_rejected houtcome'] at htexts
      | blank => simp [verdict_of_accepted houtcome, verdict_of_blank houtcome'] at htexts
  | rejected rejection =>
      cases houtcome' : report'.outcome with
      | accepted tokens' =>
          simp [verdict_of_rejected houtcome, verdict_of_accepted houtcome'] at htexts
      | rejected rejection' =>
          rw [verdict_of_rejected houtcome, verdict_of_rejected houtcome', hnumber] at hverdict
          rw [Rejection.message_injective (String.append_right_inj _ |>.mp hverdict)]
      | blank => simp [verdict_of_rejected houtcome, verdict_of_blank houtcome', hnumber] at htexts
  | blank =>
      cases houtcome' : report'.outcome with
      | accepted tokens' =>
          simp [verdict_of_blank houtcome, verdict_of_accepted houtcome'] at htexts
      | rejected rejection' =>
          simp [verdict_of_blank houtcome, verdict_of_rejected houtcome', hnumber] at htexts
      | blank => rfl

end LineReport

/-! ### The rows about lines -/

/-- The rows of a tree begin with an empty one. -/
theorem LineReport.head?_treeRows {report : LineReport} {row : String}
    (h : row ∈ report.treeRows.head?) : row = "" := by
  cases houtcome : report.outcome with
  | accepted tokens => simpa [treeRows, houtcome, eq_comm] using h
  | rejected rejection => simp [treeRows, houtcome] at h
  | blank => simp [treeRows, houtcome] at h

namespace Report

/-- **The rows about lines are those before the first row that begins otherwise.** -/
theorem takeWhile_rows {report : Report} (h : ∀ line ∈ report.lines, line.Genuine)
    (printTrees : Bool) :
    (Text.rows (report.text printTrees)).takeWhile LineReport.tellsOfLine =
      report.lines.map LineReport.verdict := by
  have hverdicts : ∀ row ∈ report.lines.map LineReport.verdict,
      LineReport.tellsOfLine row = true := by
    simpa using fun line _ => line.tellsOfLine_verdict
  have htrees : ∀ row ∈ (report.lines.flatMap LineReport.treeRows).head?,
      LineReport.tellsOfLine row = false := by
    intro row hrow
    rw [List.head?_flatMap] at hrow
    obtain ⟨line, -, hhead⟩ := List.exists_of_findSome?_eq_some hrow
    rw [LineReport.head?_treeRows hhead]
    rfl
  rw [rows_text h, List.append_assoc]
  refine (takeWhile_dropWhile_append hverdicts fun row hrow => ?_).1
  -- Behind them comes the closing sentence, or else the empty row above the first tree.
  cases hvalid : report.allValid with
  | false =>
      cases printTrees with
      | false => simp [hvalid] at hrow
      | true => exact htrees row (by simpa [hvalid] using hrow)
  | true =>
      have hclosing : "All lines are valid" = row := by simpa [hvalid] using hrow
      rw [← hclosing]
      decide

end Report

/-- Reports with the same rows about lines have the same outcomes. -/
theorem Report.outcomes_eq_of_verdicts_eq {first second : List String}
    (hfirst : ∀ line ∈ first, '\n' ∉ line.toList) (hsecond : ∀ line ∈ second, '\n' ∉ line.toList)
    (h : (ofLines first).lines.map LineReport.verdict =
      (ofLines second).lines.map LineReport.verdict) :
    first.map Outcome.ofLine = second.map Outcome.ofLine := by
  have hlength : first.length = second.length := by
    simpa [ofLines] using congrArg List.length h
  refine List.ext_getElem (by simpa using hlength) fun index hindex hindex' => ?_
  rw [List.length_map] at hindex hindex'
  have hgenuine : LineReport.Genuine ⟨index + 1, first[index], .ofLine first[index]⟩ :=
    ⟨hfirst _ (List.getElem_mem hindex), rfl⟩
  have hgenuine' : LineReport.Genuine ⟨index + 1, second[index], .ofLine second[index]⟩ :=
    ⟨hsecond _ (List.getElem_mem hindex'), rfl⟩
  have hrow : LineReport.verdict ⟨index + 1, first[index], .ofLine first[index]⟩ =
      LineReport.verdict ⟨index + 1, second[index], .ofLine second[index]⟩ := by
    simpa [ofLines, hindex, hindex'] using congrArg (·[index]?) h
  rw [List.getElem_map, List.getElem_map]
  exact LineReport.outcome_eq_of_verdict_eq hgenuine hgenuine' rfl hrow

/-- **A report tells the outcomes.** When the reports on two batches of lines have the same text,
with trees or without, the batches have the same number of lines and line by line the same outcome:
both lines are blank, or accepted with the same tokens, or rejected for the same fault at the same
position. A character that does not occur in the notation is quoted in its message, as
`Text.quote` has it. -/
theorem report_tells_outcomes :
    (∀ (first second : List String) (printTrees : Bool),
      (∀ line ∈ first, '\n' ∉ line.toList) → (∀ line ∈ second, '\n' ∉ line.toList) →
      (Report.ofLines first).text printTrees = (Report.ofLines second).text printTrees →
        first.length = second.length ∧ first.map Outcome.ofLine = second.map Outcome.ofLine) ∧
    ∀ (character : Char) (position : Nat),
      Rejection.message ⟨.illegalCharacter character, position⟩ =
        "Illegal character " ++ String.ofList (Text.quote character) ++
          " at index " ++ toString position ++ "." := by
  constructor
  · intro first second printTrees hfirst hsecond h
    have hverdicts : (Report.ofLines first).lines.map LineReport.verdict =
        (Report.ofLines second).lines.map LineReport.verdict := by
      rw [← Report.takeWhile_rows (Report.genuine_of_mem_ofLines hfirst) printTrees, h,
        Report.takeWhile_rows (Report.genuine_of_mem_ofLines hsecond)]
    have houtcomes := Report.outcomes_eq_of_verdicts_eq hfirst hsecond hverdicts
    exact ⟨by simpa using congrArg List.length houtcomes, houtcomes⟩
  · intro character position
    exact Rejection.message_eq _

/-- Of a rejected line and of a blank one a report repeats nothing, so different lines may have the
same report, but never with different outcomes. The accepted line among them spells a part of what
is told of it. -/
theorem same_report_of_different_lines :
    let first := ["x)", "y is y", "a#b", ""]
    let second := ["y)z", "y is y", "b#", "  "]
    (∀ line ∈ first, '\n' ∉ line.toList) ∧ (∀ line ∈ second, '\n' ∉ line.toList) ∧
      (Report.ofLines first).text true = (Report.ofLines second).text true ∧
      first.length = second.length ∧ first.map Outcome.ofLine = second.map Outcome.ofLine := by
  intro first second
  have hfirst : ∀ line ∈ first, '\n' ∉ line.toList := by decide
  have hsecond : ∀ line ∈ second, '\n' ∉ line.toList := by decide
  have htext : (Report.ofLines first).text true = (Report.ofLines second).text true := by
    decide +kernel
  exact ⟨hfirst, hsecond, htext, report_tells_outcomes.1 first second true hfirst hsecond htext⟩

end LambdaSyntax
