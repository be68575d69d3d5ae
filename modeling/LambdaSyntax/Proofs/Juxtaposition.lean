import LambdaSyntax.Proofs.DotSugar
import LambdaSyntax.Proofs.Shifting
import LambdaSyntax.Proofs.Trimming

/-!
Lines put together from other lines.

Two lines with white space between them are scanned as each is alone: the first one leaves nothing
pending, and the second one starts afresh. Only the groups that dots opened in the first line stay
open, so they are closed behind the second. A line in brackets is scanned as it is alone, too. Its
first character is no closing bracket, so that the opening one before it has no say; the closing one
behind it may end the group of a dot, but then the group of the opening one is closed for it.

* `Token.closeGroups_append`, `Token.closeGroups_group`: how open groups add up.
* `Scan.run_append_blanks`: behind a line and white space, a scan starts afresh.
* `tokenize_append_blanks_append`, `tokenize_juxtaposed`: two lines with white space between them.
* `tokenize_group`, `tokenize_enclosed`: a line in brackets.
-/

namespace LambdaSyntax

/-! ### Open groups -/

namespace Token

/-- The groups that stand open behind some tokens are closed behind everything that follows. -/
theorem closeGroups_append {first second : List Token}
    (hfirst : first.count .closing ≤ first.count .opening)
    (hsecond : second.count .closing ≤ second.count .opening) :
    closeGroups (first ++ second) =
      first ++ closeGroups second ++ List.replicate (unclosed first) .closing := by
  have hunclosed : unclosed (first ++ second) = unclosed second + unclosed first := by
    simp only [unclosed, List.count_append]
    omega
  rw [closeGroups, closeGroups, hunclosed, List.replicate_add]
  simp only [List.append_assoc]

/-- A closing behind tokens that are closed already may as well stand before the closings added. -/
theorem closeGroups_group (tokens : List Token) :
    closeGroups (.opening :: tokens ++ [.closing]) =
      .opening :: closeGroups tokens ++ [.closing] := by
  have hunclosed : unclosed (.opening :: tokens ++ [.closing]) = unclosed tokens := by
    simp [unclosed, List.count_append]
  have hmoved : [.closing] ++ List.replicate (unclosed tokens) Token.closing =
      List.replicate (unclosed tokens) .closing ++ [.closing] := by
    rw [List.singleton_append, ← List.replicate_succ, List.replicate_succ']
  rw [closeGroups, closeGroups, hunclosed, List.append_assoc, hmoved, List.cons_append,
    List.cons_append, List.append_assoc]

end Token

namespace Scan

/-- Brackets that match close no more groups than the line opens. -/
theorem count_closing_le {line : List Char} {scan : Scan} (hcheck : Brackets.check line = .ok ())
    (hrun : Scan.start.run line = .ok scan) :
    scan.tokens.count .closing ≤ scan.tokens.count .opening := by
  obtain ⟨hopenings, hclosings⟩ := count_tokens hrun
  have htotal := (Brackets.check_eq_ok_iff.mp hcheck).total
  omega

theorem finish_run_eq_ok_iff {scan : Scan} {line : List Char} {tokens : List Token} :
    (scan.run line).bind finish = .ok tokens ↔
      ∃ last, scan.run line = .ok last ∧ last.pending.awaitsParameter = false ∧
        tokens = last.tokens := by
  cases scan.run line with
  | error rejection => simp [Except.bind]
  | ok last => simp [Except.bind, finish_eq_ok_iff]

/-! ### Scans that start afresh -/

/-- Behind white space nothing is pending, and the tokens before it are complete. -/
theorem run_blanks {scan : Scan} (idle : scan.pending.awaitsParameter = false)
    {blanks : List Char} (hne : blanks ≠ []) (h : ∀ c ∈ blanks, Text.isBlank c = true) :
    scan.run blanks = .ok ⟨scan.position + blanks.length, .nothing, scan.tokens.reverse⟩ := by
  induction blanks generalizing scan with
  | nil => exact absurd rfl hne
  | cons c rest ih =>
      obtain ⟨hc, hrest⟩ := List.forall_mem_cons.mp h
      refine run_cons_eq_ok_iff.mpr ⟨_, _, .blank idle hc, ?_⟩
      by_cases hnil : rest = []
      · subst hnil
        simp [after, Scan.tokens]
      · rw [ih rfl hnil hrest]
        simp [after, Scan.tokens, Pending.flush, Nat.add_comm, Nat.add_left_comm]

/-- **Behind a line and white space a scan starts afresh.** -/
theorem run_append_blanks {line blanks : List Char} {last : Scan}
    (hrun : Scan.start.run line = .ok last) (idle : last.pending.awaitsParameter = false)
    (hne : blanks ≠ []) (h : ∀ c ∈ blanks, Text.isBlank c = true) :
    Scan.start.run (line ++ blanks) =
      .ok (Scan.start.behind (line ++ blanks).length last.tokens) := by
  have hposition := (follows_of_run hrun).1
  refine run_append_eq_ok_iff.mpr ⟨last, hrun, ?_⟩
  rw [run_blanks idle hne h, hposition]
  simp [behind, start, Pending.shift]

/-- An opening bracket only matters to a closing one directly behind it. -/
theorem run_of_bracket {position bracket : Nat} {emitted : List Token} {c : Char} {rest : List Char}
    (hc : c ≠ ')') :
    run ⟨position, .bracket bracket, emitted⟩ (c :: rest) =
      run ⟨position, .nothing, emitted⟩ (c :: rest) := by
  have hstep : step ⟨position, .bracket bracket, emitted⟩ c =
      step ⟨position, .nothing, emitted⟩ c := by
    simp [step, Pending.read, hc]
  rw [run_cons, hstep, run_cons]

end Scan

/-! ### Two lines with white space between them -/

section Juxtaposed

variable {first blanks : List Char}

/-- **What stands behind a line and white space has the result that it has alone**, at its place and
with the tokens before it. -/
theorem tokenize_append_blanks_append {scan : Scan} (hcheck : Brackets.check first = .ok ())
    (hrun : Scan.start.run first = .ok scan) (idle : scan.pending.awaitsParameter = false)
    (hne : blanks ≠ []) (hblank : ∀ c ∈ blanks, Text.isBlank c = true) (second : List Char) :
    tokenize (first ++ blanks ++ second) =
      shifted (first ++ blanks).length
        (fun more => scan.tokens ++ more ++ List.replicate (first.count '.') .closing)
        (tokenize second) := by
  have hbefore : Brackets.check (first ++ blanks) = .ok () :=
    (Brackets.check_append_blanks hblank first).trans hcheck
  have hall := Brackets.check_append hbefore second
  cases hsecond : Brackets.check second with
  | error rejection =>
      rw [hsecond, shifted_error] at hall
      rw [tokenize_of_check_eq_error hall, tokenize_of_check_eq_error hsecond, shifted_error]
  | ok _ =>
      rw [hsecond, shifted_ok] at hall
      rw [tokenize_of_check hall, tokenize_of_check hsecond, Scan.run_append,
        Scan.run_append_blanks hrun idle hne hblank]
      change (((Scan.start.behind _ scan.tokens).run second).bind Scan.finish).map
        Token.closeGroups = _
      rw [Scan.finish_run_behind]
      cases hresult : (Scan.start.run second).bind Scan.finish with
      | error rejection => rfl
      | ok more =>
          obtain ⟨last, hlast, -, rfl⟩ := Scan.finish_run_eq_ok_iff.mp hresult
          have hclose := Token.closeGroups_append (Scan.count_closing_le hcheck hrun)
            (Scan.count_closing_le hsecond hlast)
          rw [Scan.unclosed_tokens hcheck hrun] at hclose
          exact congrArg Except.ok hclose

/-- **Juxtaposition.** White space between an accepted line and another one keeps them apart: if the
second is accepted, its tokens stand behind those of the first, and the closings of the first one's
dots are put off to the end. If it is rejected, so is the whole, for the same fault at the same
character. -/
theorem tokenize_juxtaposed {tokens : List Token} (h : tokenize first = .ok tokens)
    (hne : blanks ≠ []) (hblank : ∀ c ∈ blanks, Text.isBlank c = true) (second : List Char) :
    (∀ more, tokenize second = .ok more →
      tokenize (first ++ blanks ++ second) =
        .ok (tokens.take (tokens.length - first.count '.') ++ more ++
          List.replicate (first.count '.') .closing)) ∧
    ∀ rejection, tokenize second = .error rejection →
      tokenize (first ++ blanks ++ second) =
        .error ⟨rejection.fault, rejection.position + (first ++ blanks).length⟩ := by
  obtain ⟨hcheck, scan, hrun, idle, rfl⟩ := tokenize_eq_ok_iff.mp h
  have hall := tokenize_append_blanks_append hcheck hrun idle hne hblank second
  have htake : (Token.closeGroups scan.tokens).take
      ((Token.closeGroups scan.tokens).length - first.count '.') = scan.tokens := by
    rw [Token.closeGroups, Scan.unclosed_tokens hcheck hrun]
    exact List.take_left' (by simp)
  constructor
  · intro more hmore
    rw [hall, hmore, htake, shifted_ok]
  · intro rejection hrejected
    rw [hall, hrejected, shifted_error]
    rfl

/-- Behind `\x.y` and a space, the bracket in `(z.w)` ends the group of its own dot, and the digit
`3` is at position 5 of the whole. -/
theorem dotted_line_before_others :
    let first := ['\\', 'x', '.', 'y']
    tokenize first = .ok [.lambda, .name "x", .opening, .name "y", .closing] ∧
      (∀ c ∈ [' '], Text.isBlank c = true) ∧
      (tokenize ['(', 'z', '.', 'w', ')'] =
          .ok [.opening, .name "z", .opening, .name "w", .closing, .closing] ∧
        tokenize (first ++ [' '] ++ ['(', 'z', '.', 'w', ')']) =
          .ok [.lambda, .name "x", .opening, .name "y", .opening, .name "z", .opening, .name "w",
            .closing, .closing, .closing]) ∧
      tokenize ['3'] = .error ⟨.leadingDigit, 0⟩ ∧
      tokenize (first ++ [' '] ++ ['3']) = .error ⟨.leadingDigit, 5⟩ := by
  intro first
  have haccepted : tokenize first = .ok [.lambda, .name "x", .opening, .name "y", .closing] := rfl
  have hblank : ∀ c ∈ [' '], Text.isBlank c = true := List.forall_mem_singleton.mpr rfl
  have hmore : tokenize ['(', 'z', '.', 'w', ')'] =
      .ok [.opening, .name "z", .opening, .name "w", .closing, .closing] := rfl
  have hrejected : tokenize ['3'] = .error ⟨.leadingDigit, 0⟩ := rfl
  have hjuxtaposed := tokenize_juxtaposed haccepted (List.cons_ne_nil ' ' []) hblank
  exact ⟨haccepted, hblank, ⟨hmore, (hjuxtaposed _).1 _ hmore⟩, hrejected,
    (hjuxtaposed _).2 _ hrejected⟩

end Juxtaposed

/-! ### A line in brackets -/

namespace Brackets

theorem check_group {line : List Char} (h : check line = .ok ()) :
    check ('(' :: line ++ [')']) = .ok () := by
  have hinner : checkFrom 1 [] line = .ok () := by
    have hshift := checkFrom_shift 1 0 [] line
    rw [check] at h
    rw [h] at hshift
    exact hshift
  exact checkFrom_append hinner [0] [')']

end Brackets

/-- A line whose brackets match does not end in an opening one. -/
theorem Scan.atBracket_eq_false_of_check {line : List Char} {scan : Scan}
    (hcheck : Brackets.check line = .ok ()) (hrun : Scan.start.run line = .ok scan) :
    scan.pending.atBracket = false := by
  rw [Bool.eq_false_iff]
  intro hbracket
  obtain ⟨before, rfl⟩ := Scan.ends_in_bracket hrun hbracket
  exact not_nests_concat_opening Brackets.opening_ne_closing (Brackets.check_eq_ok_iff.mp hcheck)

/-- A closing bracket ends a scan as the end of the line does: a backslash before it lacks its
parameter, and otherwise there is one closing more. -/
theorem Scan.finish_run_closing {scan : Scan} (apart : scan.pending.atBracket = false) :
    (scan.run [')']).bind finish = scan.finish.map (· ++ [.closing]) := by
  cases hidle : scan.pending.awaitsParameter with
  | true =>
      obtain ⟨position, pending, emitted⟩ := scan
      obtain ⟨backslash, rfl⟩ := Pending.exists_eq_lambda_of_awaitsParameter hidle
      have hrefuses : Pending.Refuses position (.lambda backslash) ')'
          ⟨.missingParameter, backslash⟩ := .missingParameter rfl rfl
      have hrun : run ⟨position, .lambda backslash, emitted⟩ [')'] =
          .error ⟨.missingParameter, backslash⟩ :=
        run_eq_error_iff.mpr ⟨[], ')', [], _, rfl, rfl, hrefuses⟩
      rw [hrun]
      rfl
  | false =>
      obtain ⟨last, hrun, hlast, htokens⟩ := yields_closings hidle apart 1
      have hfinish := finish_run_eq_ok_iff.mpr ⟨last, hrun, hlast, rfl⟩
      rw [htokens] at hfinish
      rw [finish_eq_ok_iff.mpr ⟨hidle, rfl⟩]
      exact hfinish

section Enclosed

variable {line : List Char}

/-- Behind an opening bracket, a line is scanned as it is alone. -/
theorem Scan.run_opening (hne : line ≠ []) (hcheck : Brackets.check line = .ok ()) :
    Scan.start.run ('(' :: line) = (Scan.start.behind 1 [.opening]).run line := by
  obtain ⟨c, rest, rfl⟩ := List.exists_cons_of_ne_nil hne
  have hc : c ≠ ')' :=
    (Brackets.check_eq_ok_iff.mp hcheck).head_ne_closing Brackets.opening_ne_closing
  exact Scan.run_of_bracket hc

/-- **A line in brackets has the result that it has alone**, with its group around its tokens. -/
theorem tokenize_group (hne : line ≠ []) (hcheck : Brackets.check line = .ok ()) :
    tokenize ('(' :: line ++ [')']) =
      shifted 1 (fun tokens => .opening :: tokens ++ [.closing]) (tokenize line) := by
  rw [tokenize_of_check (Brackets.check_group hcheck), tokenize_of_check hcheck, Scan.run_append,
    Scan.run_opening hne hcheck, Scan.run_behind]
  cases hrun : Scan.start.run line with
  | error rejection => rfl
  | ok last =>
      have apart : (last.behind 1 [.opening]).pending.atBracket = false := by
        rw [Scan.behind, Pending.atBracket_shift]
        exact Scan.atBracket_eq_false_of_check hcheck hrun
      change (((last.behind 1 [.opening]).run [')']).bind Scan.finish).map Token.closeGroups =
        shifted 1 _ (last.finish.map Token.closeGroups)
      rw [Scan.finish_run_closing apart, Scan.finish_behind]
      cases last.finish with
      | error rejection => rfl
      | ok tokens => exact congrArg Except.ok (Token.closeGroups_group tokens)

/-- **Parenthesising.** Brackets around a line that is not empty and whose own brackets match change
nothing in it: if it is accepted, they are a group around its tokens, even where the closing one
ends the group of a dot. If it is rejected, so is the whole, for the same fault one character on. -/
theorem tokenize_enclosed (hne : line ≠ []) (hcheck : Brackets.check line = .ok ()) :
    (∀ tokens, tokenize line = .ok tokens →
      tokenize ('(' :: line ++ [')']) = .ok (.opening :: tokens ++ [.closing])) ∧
    ∀ rejection, tokenize line = .error rejection →
      tokenize ('(' :: line ++ [')']) = .error ⟨rejection.fault, rejection.position + 1⟩ := by
  have hall := tokenize_group hne hcheck
  constructor
  · intro tokens haccepted
    rw [hall, haccepted, shifted_ok]
  · intro rejection hrejected
    rw [hall, hrejected, shifted_error]
    rfl

/-- In `(\x.y)` the closing bracket ends the group of the dot; in `(x\)` it is no parameter. -/
theorem dot_and_backslash_enclosed :
    (Brackets.check ['\\', 'x', '.', 'y'] = .ok () ∧
      tokenize ['\\', 'x', '.', 'y'] =
        .ok [.lambda, .name "x", .opening, .name "y", .closing] ∧
      tokenize ('(' :: ['\\', 'x', '.', 'y'] ++ [')']) =
        .ok [.opening, .lambda, .name "x", .opening, .name "y", .closing, .closing]) ∧
    Brackets.check ['x', '\\'] = .ok () ∧
      tokenize ['x', '\\'] = .error ⟨.missingParameter, 1⟩ ∧
      tokenize ('(' :: ['x', '\\'] ++ [')']) = .error ⟨.missingParameter, 2⟩ := by
  have hdot : Brackets.check ['\\', 'x', '.', 'y'] = .ok () := rfl
  have haccepted : tokenize ['\\', 'x', '.', 'y'] =
      .ok [.lambda, .name "x", .opening, .name "y", .closing] := rfl
  have hbackslash : Brackets.check ['x', '\\'] = .ok () := rfl
  have hrejected : tokenize ['x', '\\'] = .error ⟨.missingParameter, 1⟩ := rfl
  exact ⟨⟨hdot, haccepted, (tokenize_enclosed (List.cons_ne_nil _ _) hdot).1 _ haccepted⟩,
    hbackslash, hrejected, (tokenize_enclosed (List.cons_ne_nil _ _) hbackslash).2 _ hrejected⟩

end Enclosed

end LambdaSyntax
