import Mathlib.Data.List.Forall2
import Mathlib.Data.List.TakeWhile
import LambdaSyntax.Proofs.Faults
import LambdaSyntax.Proofs.Shifting
import LambdaSyntax.Report
import LambdaSyntax.Source

/-!
White space at the end of a line.

Files are read line by line, and the white space at the end of each line is dropped before the line
is checked. That could only matter where the scanner looks at the character behind: at an opening
bracket, which a closing bracket must not follow, and at a backslash. White space is no bracket, so
what is left is a backslash that stands last. It lacks its parameter, and with white space behind
it the rejection names the white space instead.

* `Scan.run_eq_error_iff`: a scan fails at one character, and has read all before it.
* `Scan.finish_run_blanks`: white space adds nothing to a scan that waits for no parameter.
* `tokenize_append_of_lastBackslash`, `tokenize_append_of_not_lastBackslash`: a line with white
  space behind it has the same result, the one exception apart.
* `trimming_keeps_verdicts`: so has every line of a file and the piece of the file it comes from.
-/

namespace LambdaSyntax

namespace Text

/-- A text is what trimming leaves of it, with white space behind. -/
theorem exists_trimEnd_append (text : List Char) :
    ∃ blanks, text = trimEnd text ++ blanks ∧ ∀ c ∈ blanks, isBlank c = true := by
  refine ⟨(text.reverse.takeWhile isBlank).reverse, ?_, ?_⟩
  · rw [trimEnd, ← List.reverse_append, List.takeWhile_append_dropWhile, List.reverse_reverse]
  · intro c hc
    exact List.mem_takeWhile_imp (List.mem_reverse.mp hc)

end Text

namespace Brackets

/-- The bracket check reports nothing but brackets. -/
theorem fault_of_checkFrom {position : Nat} {opened : List Nat} {line : List Char}
    {rejection : Rejection} (h : checkFrom position opened line = .error rejection) :
    rejection.fault = .unmatchedClosing ∨ rejection.fault = .unmatchedOpening := by
  induction line generalizing position opened with
  | nil =>
      cases opened with
      | nil => cases h
      | cons innermost outer =>
          cases h
          exact .inr rfl
  | cons c rest ih =>
      unfold checkFrom at h
      split at h
      · exact ih h
      · split at h
        · cases opened with
          | nil =>
              cases h
              exact .inl rfl
          | cons innermost outer => exact ih h
        · exact ih h

/-- Characters other than brackets do not matter at the end of a line. -/
theorem checkFrom_append_of_plain {plain : List Char} (h : ∀ c ∈ plain, c ≠ '(' ∧ c ≠ ')')
    (position : Nat) (opened : List Nat) (line : List Char) :
    checkFrom position opened (line ++ plain) = checkFrom position opened line := by
  induction line generalizing position opened with
  | nil =>
      rw [List.nil_append, ← List.append_nil plain, checkFrom_plain_append h]
      -- At the end of a line its position no longer counts.
      cases opened <;> rfl
  | cons c rest ih =>
      rw [List.cons_append]
      unfold checkFrom
      simp only [ih]

theorem check_append_blanks {blanks : List Char} (h : ∀ c ∈ blanks, Text.isBlank c = true)
    (line : List Char) : check (line ++ blanks) = check line :=
  checkFrom_append_of_plain (fun c hc => (Text.ne_sign_of_isBlank (h c hc)).2.2) 0 [] line

end Brackets

/-! ### Where a scan fails -/

namespace Scan

/-- A scan knows how many characters it has read, and what is pending tells the last of them. -/
theorem follows_of_run {line : List Char} {scan : Scan} (h : Scan.start.run line = .ok scan) :
    scan.position = line.length ∧ scan.pending.Follows line := by
  refine run_invariant (P := fun read scan =>
    scan.position = read.length ∧ scan.pending.Follows read) ⟨rfl, by simp [start, Pending.Follows]⟩
    ?_ h
  rintro read scan c tokens next ⟨hposition, hfollows⟩ hreads
  exact ⟨by simp [after, hposition], hfollows.reads hposition hreads⟩

/-- A backslash that waits for its parameter is the last character read. -/
theorem pending_of_awaitsParameter {line : List Char} {scan : Scan}
    (h : Scan.start.run line = .ok scan) (awaits : scan.pending.awaitsParameter = true) :
    scan.pending = .lambda (line.length - 1) := by
  obtain ⟨backslash, hpending⟩ := Pending.exists_eq_lambda_of_awaitsParameter awaits
  obtain ⟨-, hfollows⟩ := follows_of_run h
  rw [hpending] at hfollows
  obtain ⟨before, rfl, rfl⟩ := hfollows
  simp [hpending]

/-- **A scan fails at one character**, and reads all characters before it. -/
theorem run_eq_error_iff {scan : Scan} {line : List Char} {rejection : Rejection} :
    scan.run line = .error rejection ↔
      ∃ before c behind last, line = before ++ c :: behind ∧ scan.run before = .ok last ∧
        Pending.Refuses last.position last.pending c rejection := by
  constructor
  · intro h
    induction line generalizing scan with
    | nil => cases h
    | cons c rest ih =>
        rw [run_cons] at h
        cases hstep : scan.step c with
        | error rejection' =>
            rw [hstep] at h
            cases h
            exact ⟨[], c, rest, scan, rfl, rfl, step_eq_error_iff.mp hstep⟩
        | ok next =>
            rw [hstep] at h
            obtain ⟨before, d, behind, last, rfl, hrun, hrefuses⟩ := ih h
            refine ⟨c :: before, d, behind, last, rfl, ?_, hrefuses⟩
            rw [run_cons, hstep]
            exact hrun
  · rintro ⟨before, c, behind, last, rfl, hrun, hrefuses⟩
    rw [run_append, hrun]
    simp only [Except.bind, run_cons, step_eq_error_iff.mpr hrefuses]

/-- A character that shows that a parameter is missing stands behind the backslash. -/
theorem position_lt_of_missingParameter {line : List Char} {i : Nat}
    (h : Scan.start.run line = .error ⟨.missingParameter, i⟩) : i + 1 < line.length := by
  obtain ⟨before, c, behind, last, rfl, hrun, hrefuses⟩ := run_eq_error_iff.mp h
  obtain ⟨-, hfollows⟩ := follows_of_run hrun
  obtain ⟨position, pending, emitted⟩ := last
  cases hrefuses with
  | missingParameter blank letter =>
      obtain ⟨start, rfl, rfl⟩ := hfollows
      simp

/-! ### White space behind a scan -/

/-- White space is read behind anything but a backslash, and completes no token of its own. -/
theorem yields_blanks {scan : Scan} (idle : scan.pending.awaitsParameter = false)
    {blanks : List Char} (h : ∀ c ∈ blanks, Text.isBlank c = true) : scan.Yields blanks [] := by
  induction blanks generalizing scan with
  | nil => exact yields_nil idle
  | cons c rest ih =>
      have hrest : (scan.after scan.pending.flush .nothing).Yields rest [] :=
        ih rfl fun d hd => h d (List.mem_cons_of_mem c hd)
      refine .cons (.blank idle (h c List.mem_cons_self)) hrest ?_
      simp [Scan.tokens, after, Pending.flush]

theorem finish_run_blanks {scan : Scan} (idle : scan.pending.awaitsParameter = false)
    {blanks : List Char} (h : ∀ c ∈ blanks, Text.isBlank c = true) :
    (scan.run blanks).bind finish = scan.finish := by
  obtain ⟨last, hrun, hlast, htokens⟩ := yields_blanks idle h
  rw [List.append_nil] at htokens
  rw [finish_eq_ok_iff.mpr ⟨idle, rfl⟩, hrun, ← htokens]
  exact finish_eq_ok_iff.mpr ⟨hlast, rfl⟩

/-- White space behind a backslash is refused. -/
theorem run_blanks_of_lambda {scan : Scan} {i : Nat} (hpending : scan.pending = .lambda i)
    {blanks : List Char} (hne : blanks ≠ []) (h : ∀ c ∈ blanks, Text.isBlank c = true) :
    scan.run blanks = .error ⟨.blankAfterLambda, i⟩ := by
  obtain ⟨c, rest, rfl⟩ := List.exists_cons_of_ne_nil hne
  refine run_eq_error_iff.mpr ⟨[], c, rest, scan, rfl, rfl, ?_⟩
  rw [hpending]
  exact .blankAfterLambda (h c List.mem_cons_self)

end Scan

/-! ### White space behind a line -/

/-- The line is rejected because nothing follows the backslash that stands last in it. -/
def LastBackslash (line : List Char) : Prop :=
  tokenize line = .error ⟨.missingParameter, line.length - 1⟩

/-- A line that waits for a parameter at its end has that fault and no other. -/
theorem lastBackslash_iff {line : List Char} :
    LastBackslash line ↔ Brackets.check line = .ok () ∧
      ∃ scan, Scan.start.run line = .ok scan ∧ scan.pending = .lambda (line.length - 1) := by
  unfold LastBackslash
  cases hcheck : Brackets.check line with
  | error rejection =>
      rw [tokenize_of_check_eq_error hcheck]
      constructor
      · intro h
        cases h
        rcases Brackets.fault_of_checkFrom hcheck with hfault | hfault
        all_goals cases hfault
      · rintro ⟨h, -⟩
        cases h
  | ok _ =>
      rw [tokenize_of_check hcheck]
      cases hrun : Scan.start.run line with
      | error rejection =>
          constructor
          · intro h
            cases h
            have := Scan.position_lt_of_missingParameter hrun
            omega
          · rintro ⟨-, scan, h, -⟩
            cases h
      | ok scan =>
          obtain ⟨position, pending, emitted⟩ := scan
          cases pending <;> simp [Except.bind, Except.map, Scan.finish]

section Blanks

variable {line blanks : List Char}

/-- **The exception.** White space behind a backslash that stood last is reported instead. -/
theorem tokenize_append_of_lastBackslash (h : LastBackslash line) (hne : blanks ≠ [])
    (hblank : ∀ c ∈ blanks, Text.isBlank c = true) :
    tokenize (line ++ blanks) = .error ⟨.blankAfterLambda, line.length - 1⟩ := by
  obtain ⟨hcheck, scan, hrun, hpending⟩ := lastBackslash_iff.mp h
  rw [← Brackets.check_append_blanks hblank] at hcheck
  rw [tokenize_of_check hcheck, Scan.run_append, hrun]
  simp only [Except.bind, Scan.run_blanks_of_lambda hpending hne hblank]
  rfl

/-- **White space at the end of any other line changes nothing.** -/
theorem tokenize_append_of_not_lastBackslash (h : ¬ LastBackslash line)
    (hblank : ∀ c ∈ blanks, Text.isBlank c = true) :
    tokenize (line ++ blanks) = tokenize line := by
  have happend := Brackets.check_append_blanks hblank line
  cases hcheck : Brackets.check line with
  | error rejection =>
      rw [tokenize_of_check_eq_error hcheck, tokenize_of_check_eq_error (happend.trans hcheck)]
  | ok _ =>
      rw [hcheck] at happend
      rw [tokenize_of_check happend, tokenize_of_check hcheck, Scan.run_append]
      cases hrun : Scan.start.run line with
      | error rejection => rfl
      | ok scan =>
          have idle : scan.pending.awaitsParameter = false := by
            rw [Bool.eq_false_iff]
            intro hawaits
            exact h (lastBackslash_iff.mpr
              ⟨hcheck, scan, hrun, Scan.pending_of_awaitsParameter hrun hawaits⟩)
          simp only [Except.bind]
          exact congrArg _ (Scan.finish_run_blanks idle hblank)

end Blanks

/-! ### Blank lines -/

/-- A character is read in one way only. -/
theorem Pending.Reads.unique {position : Nat} {p next next' : Pending} {c : Char}
    {tokens tokens' : List Token} (h : Reads position p c tokens next)
    (h' : Reads position p c tokens' next') : tokens = tokens' ∧ next = next' := by
  have hread := (read_eq_ok_iff.mpr h).symm.trans (read_eq_ok_iff.mpr h')
  simpa using hread

theorem Pending.flush_eq_nil_iff {p : Pending} : p.flush = [] ↔ p.inName = false := by
  cases p <;> simp [flush, inName]

namespace Scan

/-- A scan that has tokens to show, or will have once what is pending is complete. -/
def Begun (scan : Scan) : Prop :=
  scan.emitted ≠ [] ∨ scan.pending.awaitsParameter = true ∨ scan.pending.inName = true

/-- What has begun goes on. -/
theorem Begun.reads {scan : Scan} {c : Char} {tokens : List Token} {next : Pending}
    (h : scan.Begun) (hreads : Pending.Reads scan.position scan.pending c tokens next) :
    (scan.after tokens next).Begun := by
  obtain ⟨position, pending, emitted⟩ := scan
  rcases h with hemitted | hawaits | hname
  · exact .inl (by simp_all [after])
  · cases hreads <;> simp_all [Begun, after, Pending.awaitsParameter, Pending.endsName]
  · obtain ⟨reversed, rfl⟩ := Pending.exists_eq_name_of_inName hname
    cases hreads <;> simp_all [Begun, after, Pending.inName, Pending.flush]

/-- Anything but white space begins a scan. -/
theorem begun_of_reads {position : Nat} {c : Char} {tokens : List Token} {next : Pending}
    (hreads : Pending.Reads position .nothing c tokens next) (hc : Text.isBlank c = false) :
    (after ⟨position, .nothing, []⟩ tokens next).Begun := by
  cases hreads <;>
    simp_all [Begun, after, Pending.awaitsParameter, Pending.inName, Pending.endsName]

theorem begun_of_run {line : List Char} {scan : Scan} (h : Scan.start.run line = .ok scan) :
    (scan.pending = .nothing ∧ scan.emitted = [] ∧ ∀ c ∈ line, Text.isBlank c = true) ∨
      scan.Begun := by
  refine run_invariant (P := fun read scan =>
    (scan.pending = .nothing ∧ scan.emitted = [] ∧ ∀ c ∈ read, Text.isBlank c = true) ∨
      scan.Begun) (.inl ⟨rfl, rfl, by simp⟩) ?_ h
  rintro read ⟨position, pending, emitted⟩ c tokens next hscan hreads
  rcases hscan with ⟨rfl, rfl, hread⟩ | hbegun
  · cases hc : Text.isBlank c with
    | true =>
        obtain ⟨rfl, rfl⟩ := hreads.unique (.blank rfl hc)
        refine .inl ⟨rfl, rfl, fun d hd => ?_⟩
        rcases List.mem_append.mp hd with hd | hd
        · exact hread d hd
        · rw [List.mem_singleton.mp hd]
          exact hc
    | false => exact .inr (begun_of_reads hreads hc)
  · exact .inr (hbegun.reads hreads)

end Scan

/-- **Blank lines are those without tokens.** -/
theorem tokenize_eq_nil_iff {line : List Char} :
    tokenize line = .ok [] ↔ ∀ c ∈ line, Text.isBlank c = true := by
  constructor
  · intro h
    obtain ⟨-, scan, hrun, hidle, htokens⟩ := tokenize_eq_ok_iff.mp h
    have hnil : scan.tokens = [] := by
      rw [Token.closeGroups, eq_comm, List.append_eq_nil_iff] at htokens
      exact htokens.1
    obtain ⟨hemitted, hflush⟩ := List.append_eq_nil_iff.mp hnil
    rcases Scan.begun_of_run hrun with ⟨-, -, hline⟩ | hbegun | hawaits | hname
    · exact hline
    · exact absurd (List.reverse_eq_nil_iff.mp hemitted) hbegun
    · simp [hidle] at hawaits
    · rw [Pending.flush_eq_nil_iff.mp hflush] at hname
      cases hname
  · intro h
    have hempty : ¬ LastBackslash [] := by
      intro hlast
      cases hlast
    exact tokenize_append_of_not_lastBackslash hempty h

theorem Outcome.ofLine_eq_blank_iff {line : String} :
    ofLine line = .blank ↔ ∀ c ∈ line.toList, Text.isBlank c = true := by
  rw [← tokenize_eq_nil_iff, ofLine]
  split <;> simp_all

/-! ### Lines of a file -/

/-- The report on a line speaks for the piece of text that the line was trimmed from. -/
structure LineReport.SpeaksFor (report : LineReport) (piece : List Char) : Prop where
  /-- The piece is the line with white space behind it. -/
  trimmed : ∃ blanks, piece = report.line.toList ++ blanks ∧ ∀ c ∈ blanks, Text.isBlank c = true
  /-- The outcome is that of the piece, unless white space was dropped behind a last backslash. -/
  same : piece = report.line.toList ∨ ¬ LastBackslash report.line.toList →
    Outcome.ofLine (String.ofList piece) = report.outcome
  /-- Then both are rejected for this backslash, the piece for the white space behind it. -/
  exception : piece ≠ report.line.toList → LastBackslash report.line.toList →
    report.outcome = .rejected ⟨.missingParameter, report.line.length - 1⟩ ∧
      Outcome.ofLine (String.ofList piece) =
        .rejected ⟨.blankAfterLambda, report.line.length - 1⟩

theorem Outcome.ofLine_of_tokenize_eq_error {line : String} {rejection : Rejection}
    (h : tokenize line.toList = .error rejection) : ofLine line = .rejected rejection := by
  rw [ofLine, h]

/-- Only the tokens of a line matter for its outcome. -/
theorem Outcome.ofLine_congr {line line' : String}
    (h : tokenize line.toList = tokenize line'.toList) : ofLine line = ofLine line' := by
  rw [ofLine, h, ofLine]

/-- The report on a trimmed line speaks for the whole line. -/
theorem LineReport.speaksFor_trimEnd (number : Nat) (piece : List Char) :
    let line := String.ofList (Text.trimEnd piece)
    SpeaksFor ⟨number, line, Outcome.ofLine line⟩ piece := by
  intro line
  obtain ⟨blanks, hpiece, hblank⟩ := Text.exists_trimEnd_append piece
  have hline : line.toList = Text.trimEnd piece := String.toList_ofList
  constructor
  · exact ⟨blanks, by rw [hline]; exact hpiece, hblank⟩
  · intro h
    refine Outcome.ofLine_congr ?_
    rw [String.toList_ofList]
    rcases h with hsame | hlast
    · rw [hsame]
    · rw [hline] at hlast ⊢
      rw [← tokenize_append_of_not_lastBackslash hlast hblank, ← hpiece]
  · intro hne hlast
    have hblanks : blanks ≠ [] := by
      rintro rfl
      exact hne (by rw [hline]; simpa using hpiece)
    rw [← String.length_toList]
    refine ⟨Outcome.ofLine_of_tokenize_eq_error hlast, Outcome.ofLine_of_tokenize_eq_error ?_⟩
    rw [hline] at hlast ⊢
    rw [String.toList_ofList, ← tokenize_append_of_lastBackslash hlast hblanks hblank, ← hpiece]

/-- The pieces of a text are those between its newlines, an empty last one left out. -/
theorem Text.splitOn_eq_pieces (text : List Char) :
    text.splitOn '\n' = Text.pieces text ∨ text.splitOn '\n' = Text.pieces text ++ [[]] := by
  simp only [Text.pieces]
  split
  · rename_i hlast
    exact .inr (List.dropLast_append_getLast? [] hlast).symm
  · exact .inl rfl

/-- UTF-8 text is read as it is. -/
theorem Files.text_of_utf8 {files : Files} {path text : String}
    (h : files path = some text.toUTF8) : files.text path = .ok text := by
  have hread : String.fromUTF8? text.toUTF8 = some text := dif_pos text.isValidUTF8
  simp only [Files.text, h, hread]

/-- **Trimming keeps the verdicts.** White space behind a line changes its result only where it
stands behind a last backslash, and then only from the missing parameter to the white space, at the
same position. So the lines of a file of UTF-8 text, which are trimmed, have the outcomes of the
pieces between its newlines, up to this exception. -/
theorem trimming_keeps_verdicts :
    (∀ line blanks : List Char, blanks ≠ [] → (∀ c ∈ blanks, Text.isBlank c = true) →
      (LastBackslash line →
        tokenize (line ++ blanks) = .error ⟨.blankAfterLambda, line.length - 1⟩) ∧
      (¬ LastBackslash line → tokenize (line ++ blanks) = tokenize line)) ∧
    ∀ (files : Files) (path text : String), files path = some text.toUTF8 →
      ∃ lines pieces, files.lines path = .ok lines ∧
        (text.toList.splitOn '\n' = pieces ∨ text.toList.splitOn '\n' = pieces ++ [[]]) ∧
        List.Forall₂ LineReport.SpeaksFor (Report.ofLines lines).lines pieces := by
  constructor
  · intro line blanks hne hblank
    exact ⟨fun h => tokenize_append_of_lastBackslash h hne hblank,
      fun h => tokenize_append_of_not_lastBackslash h hblank⟩
  · intro files path text h
    refine ⟨Text.lines text, Text.pieces text.toList, ?_, Text.splitOn_eq_pieces _, ?_⟩
    · rw [Files.lines, Files.text_of_utf8 h]
      rfl
    · refine List.forall₂_iff_get.mpr ⟨by simp [Report.ofLines, Text.lines], ?_⟩
      intro i hline hpiece
      simp only [Report.ofLines, Text.lines, List.get_eq_getElem, List.getElem_mapIdx,
        List.getElem_map]
      exact LineReport.speaksFor_trimEnd (i + 1) _

/-- A backslash before white space, and a file with one at the end of its first line. -/
theorem backslash_before_blanks :
    let files : Files := fun path => if path = "terms" then some "x \\ \r\n\ny".toUTF8 else none
    (LastBackslash ['x', ' ', '\\'] ∧
      tokenize (['x', ' ', '\\'] ++ [' ', '\r']) = .error ⟨.blankAfterLambda, 2⟩) ∧
    ∃ lines pieces, files.lines "terms" = .ok lines ∧
      ("x \\ \r\n\ny".toList.splitOn '\n' = pieces ∨
        "x \\ \r\n\ny".toList.splitOn '\n' = pieces ++ [[]]) ∧
      List.Forall₂ LineReport.SpeaksFor (Report.ofLines lines).lines pieces := by
  intro files
  have hlast : LastBackslash ['x', ' ', '\\'] := rfl
  have hblank : ∀ c ∈ [' ', '\r'], Text.isBlank c = true :=
    List.forall_mem_cons.mpr ⟨by decide, List.forall_mem_singleton.mpr (by decide)⟩
  exact ⟨⟨hlast, (trimming_keeps_verdicts.1 _ [' ', '\r'] (by decide) hblank).1 hlast⟩,
    trimming_keeps_verdicts.2 files "terms" _ rfl⟩

end LambdaSyntax
