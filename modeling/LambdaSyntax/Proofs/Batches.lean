import LambdaSyntax.Proofs.ReportRows
import LambdaSyntax.Proofs.Trimming

/-!
Batches of lines.

A report numbers the lines of a batch and checks each on its own. So the report on two batches, one
behind the other, is made of the reports on each, with the lines of the second numbered on
(`LineReport.numberedOn`). What a batch comes to is then settled line by line: a line is blank if it
holds nothing but white space, and all lines are valid if each is accepted and none is blank.

* `Report.lines_ofLines_append`: the report on two batches from the reports on each.
* `Report.getElem?_lines_ofLines`: the report on the line at an index.
* `lines_checked_independently`: both, with what the outcomes mean.
-/

namespace LambdaSyntax

/-- The report on a line, where the line stands behind `n` further lines. -/
def LineReport.numberedOn (n : Nat) (report : LineReport) : LineReport :=
  { report with number := report.number + n }

namespace Report

theorem getElem?_lines_ofLines (lines : List String) (i : Nat) :
    (ofLines lines).lines[i]? =
      lines[i]?.map fun line => LineReport.mk (i + 1) line (.ofLine line) := by
  rw [ofLines, List.getElem?_mapIdx]

/-- **The reports on two batches make the report on both.** -/
theorem lines_ofLines_append (first second : List String) :
    (ofLines (first ++ second)).lines =
      (ofLines first).lines ++
        (ofLines second).lines.map (LineReport.numberedOn first.length) := by
  have hsecond : (second.mapIdx fun i line =>
        LineReport.mk (i + first.length + 1) line (.ofLine line)) =
      (ofLines second).lines.map (LineReport.numberedOn first.length) := by
    refine List.mapIdx_eq_iff.mpr fun i => ?_
    rw [List.getElem?_map, getElem?_lines_ofLines, Option.map_map, Nat.add_right_comm]
    rfl
  rw [← hsecond]
  exact List.mapIdx_append

end Report

/-- A rejected line is one that has no tokens. -/
theorem Outcome.ofLine_eq_rejected_iff {line : String} {rejection : Rejection} :
    ofLine line = .rejected rejection ↔ tokenize line.toList = .error rejection := by
  rw [ofLine]
  split <;> simp_all

/-- **Lines are checked on their own.** The report on two batches of lines is made of the reports on
each, those of the second numbered on. A batch has a report for each of its lines, in order, with
its number and its text as it is. A line is blank exactly if it holds nothing but white space; it is
accepted exactly if it has tokens, never with none; and otherwise it is rejected. All lines are
valid exactly if each is accepted and holds something else than white space. -/
theorem lines_checked_independently :
    (∀ first second : List String,
      (Report.ofLines (first ++ second)).lines =
        (Report.ofLines first).lines ++
          (Report.ofLines second).lines.map (LineReport.numberedOn first.length)) ∧
    ∀ lines : List String,
      (∀ i, (Report.ofLines lines).lines[i]? =
        lines[i]?.map fun line => LineReport.mk (i + 1) line (.ofLine line)) ∧
      (∀ report ∈ (Report.ofLines lines).lines,
        (report.outcome = .blank ↔ ∀ c ∈ report.line.toList, Text.isBlank c = true) ∧
        (∀ tokens, report.outcome = .accepted tokens ↔
          tokenize report.line.toList = .ok tokens ∧ tokens ≠ []) ∧
        report.outcome ≠ .accepted [] ∧
        ∀ rejection, report.outcome = .rejected rejection ↔
          tokenize report.line.toList = .error rejection) ∧
      ((Report.ofLines lines).allValid = true ↔ ∀ line ∈ lines,
        (∃ tokens, tokenize line.toList = .ok tokens) ∧
          ∃ c ∈ line.toList, Text.isBlank c = false) := by
  refine ⟨Report.lines_ofLines_append, fun lines => ⟨Report.getElem?_lines_ofLines lines, ?_,
    Report.allValid_ofLines_iff⟩⟩
  intro report hmem
  rw [Report.outcome_of_mem_ofLines report hmem]
  exact ⟨Outcome.ofLine_eq_blank_iff, fun _ => Outcome.ofLine_eq_accepted_iff,
    fun hempty => (Outcome.ofLine_eq_accepted_iff.mp hempty).2 rfl,
    fun _ => Outcome.ofLine_eq_rejected_iff⟩

/-- The batch of an accepted line, a rejected one and one of a line separator and a no-break space:
the second line is number 1 on its own and number 2 behind the first. -/
theorem batch_of_three_outcomes :
    let first := ["\\x.x"]
    let second := [")x", "\u2028\u00a0"]
    let rejected : LineReport := ⟨2, ")x", .rejected ⟨.unmatchedClosing, 0⟩⟩
    (Report.ofLines (first ++ second)).lines =
        (Report.ofLines first).lines ++ (Report.ofLines second).lines.map (.numberedOn 1) ∧
      (rejected ∈ (Report.ofLines (first ++ second)).lines ∧
        (rejected.outcome = .blank ↔ ∀ c ∈ rejected.line.toList, Text.isBlank c = true)) ∧
      ((Report.ofLines second).allValid = true ↔ ∀ line ∈ second,
        (∃ tokens, tokenize line.toList = .ok tokens) ∧
          ∃ c ∈ line.toList, Text.isBlank c = false) := by
  intro first second rejected
  obtain ⟨happend, hbatch⟩ := lines_checked_independently
  obtain ⟨hindex, houtcome, -⟩ := hbatch (first ++ second)
  have hmem : rejected ∈ (Report.ofLines (first ++ second)).lines :=
    List.mem_of_getElem? (hindex 1)
  exact ⟨happend first second, ⟨hmem, (houtcome rejected hmem).1⟩, (hbatch second).2.2⟩

end LambdaSyntax
