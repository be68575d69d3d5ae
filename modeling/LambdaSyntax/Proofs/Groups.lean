import LambdaSyntax.Proofs.Nesting
import LambdaSyntax.Proofs.Reading

/-!
The groups of a scan and the brackets of its line.

A scan emits an opening for each opening bracket and each dot it reads, a closing for each closing
bracket, and nothing else that opens or closes. Dots only ever add openings, so a line whose
brackets nest gives tokens that never overclose, and exactly as many groups as it has dots are left
for the end of the line to close.

* `Scan.mirrorsGroups_of_run`: the invariant, for every scan without a fault.
* `Scan.unclosed_tokens`: the number of groups that the end of the line closes is that of the dots.
* `Scan.nests_closeGroups`: the tokens of an accepted line nest.
-/

namespace LambdaSyntax

theorem Token.opening_ne_closing : Token.opening ≠ .closing := by decide

/-- Sequences whose groups are closed have none to close. -/
theorem Token.closeGroups_of_nests {tokens : List Token}
    (h : Nests Token.opening Token.closing tokens) : closeGroups tokens = tokens := by
  rw [closeGroups, unclosed, h.total, Nat.sub_self, List.replicate_zero, List.append_nil]

namespace Pending

theorem count_flush (p : Pending) :
    p.flush.count .opening = 0 ∧ p.flush.count .closing = 0 := by
  cases p <;> simp [flush]

/-- One character completes an opening if it is an opening bracket or a dot, a closing if it is a
closing bracket, and otherwise neither. -/
theorem Reads.counts {position : Nat} {p next : Pending} {c : Char} {tokens : List Token}
    (h : Reads position p c tokens next) :
    tokens.count .opening = [c].count '(' + [c].count '.' ∧
      tokens.count .closing = [c].count ')' := by
  have hflush := count_flush p
  cases h with
  | parameter letter =>
      simp [Text.ne_sign_of_isAlphanum (Text.isAlphanum_of_isAlpha letter)]
  | continues word => simp [Text.ne_sign_of_isAlphanum word]
  | backslash idle => simp [hflush]
  | blank idle blank => simp [hflush, Text.ne_sign_of_isBlank blank]
  | dot behind => simp [hflush]
  | opening idle => simp [hflush]
  | closing idle apart => simp [hflush]
  | letter idle fresh letter =>
      simp [Text.ne_sign_of_isAlphanum (Text.isAlphanum_of_isAlpha letter)]

end Pending

namespace Scan

@[simp] theorem reverse_emitted_after (scan : Scan) (tokens : List Token) (next : Pending) :
    (scan.after tokens next).emitted.reverse = scan.emitted.reverse ++ tokens := by
  simp [after]

/-- The tokens emitted so far open and close where the characters read do. -/
structure MirrorsGroups (read : List Char) (scan : Scan) : Prop where
  openings : scan.emitted.reverse.count .opening = read.count '(' + read.count '.'
  closings : scan.emitted.reverse.count .closing = read.count ')'
  /-- Dots give further openings, so they never make a closing one too many. -/
  prefixes : NeverOvercloses '(' ')' read →
    NeverOvercloses Token.opening Token.closing scan.emitted.reverse
  /-- Wherever the line is cut, the tokens can be cut with the same groups before the cut. -/
  cuts : ∀ p, p <+: read → ∃ q, q <+: scan.emitted.reverse ∧
    q.count Token.opening = p.count '(' + p.count '.' ∧ q.count Token.closing = p.count ')'

section Reads

variable {read : List Char} {scan : Scan} {c : Char} {tokens : List Token} {next : Pending}

theorem MirrorsGroups.counts_append (h : MirrorsGroups read scan)
    (hreads : Pending.Reads scan.position scan.pending c tokens next) :
    (scan.emitted.reverse ++ tokens).count .opening =
        (read ++ [c]).count '(' + (read ++ [c]).count '.' ∧
      (scan.emitted.reverse ++ tokens).count .closing = (read ++ [c]).count ')' := by
  constructor
  · simp only [List.count_append, h.openings, hreads.counts.1]
    omega
  · simp only [List.count_append, h.closings, hreads.counts.2]

theorem MirrorsGroups.reads (h : MirrorsGroups read scan)
    (hreads : Pending.Reads scan.position scan.pending c tokens next) :
    MirrorsGroups (read ++ [c]) (scan.after tokens next) where
  openings := by
    rw [reverse_emitted_after]
    exact (h.counts_append hreads).1
  closings := by
    rw [reverse_emitted_after]
    exact (h.counts_append hreads).2
  prefixes := by
    intro hnever
    rw [reverse_emitted_after]
    refine (h.prefixes hnever.of_append).append ?_
    have hroom := hnever.room Brackets.opening_ne_closing
    rw [h.openings, h.closings, hreads.counts.2]
    omega
  cuts := by
    intro p hp
    rw [reverse_emitted_after]
    rcases List.prefix_concat_iff.mp hp with rfl | hread
    · exact ⟨_, List.prefix_refl _, h.counts_append hreads⟩
    · obtain ⟨q, hq, hcounts⟩ := h.cuts p hread
      exact ⟨q, hq.trans (List.prefix_append _ _), hcounts⟩

end Reads

theorem mirrorsGroups_start : MirrorsGroups [] Scan.start where
  openings := rfl
  closings := rfl
  prefixes := fun _ => neverOvercloses_nil
  cuts := by
    intro p hp
    obtain rfl := List.prefix_nil.mp hp
    exact ⟨[], List.nil_prefix, rfl, rfl⟩

theorem mirrorsGroups_of_run {line : List Char} {scan : Scan}
    (h : Scan.start.run line = .ok scan) : MirrorsGroups line scan :=
  run_invariant (P := MirrorsGroups)
    mirrorsGroups_start (fun h hreads => h.reads hreads) h

section Nested

variable {line : List Char} {scan : Scan}

theorem count_tokens (h : Scan.start.run line = .ok scan) :
    scan.tokens.count .opening = line.count '(' + line.count '.' ∧
      scan.tokens.count .closing = line.count ')' := by
  have groups := mirrorsGroups_of_run h
  have hflush := Pending.count_flush scan.pending
  simp [Scan.tokens, List.count_append, groups.openings, groups.closings, hflush]

/-- The groups left open at the end of a line are those of its dots. -/
theorem unclosed_tokens (hcheck : Brackets.check line = .ok ())
    (h : Scan.start.run line = .ok scan) : Token.unclosed scan.tokens = line.count '.' := by
  have htotal := (Brackets.check_eq_ok_iff.mp hcheck).total
  have hcount := count_tokens h
  rw [Token.unclosed, hcount.1, hcount.2]
  omega

theorem nests_closeGroups (hcheck : Brackets.check line = .ok ())
    (h : Scan.start.run line = .ok scan) :
    Nests Token.opening Token.closing (Token.closeGroups scan.tokens) := by
  have hnests := Brackets.check_eq_ok_iff.mp hcheck
  have groups := mirrorsGroups_of_run h
  have hflush := Pending.count_flush scan.pending
  have htokens : NeverOvercloses Token.opening Token.closing scan.tokens := by
    have hemitted := groups.prefixes hnests.prefixes
    refine hemitted.append ?_
    have := hemitted.count_le
    omega
  have hle := htokens.count_le
  refine ⟨htokens.append ?_, ?_⟩
  · rw [List.count_replicate_self, Token.unclosed]
    omega
  · simp only [Token.closeGroups, List.count_append, List.count_replicate_self, Token.unclosed,
      List.count_replicate]
    simp
    omega

/-- Without dots, the brackets of the line nest when the groups of its tokens do. -/
theorem nests_line (h : Scan.start.run line = .ok scan) (hdots : '.' ∉ line)
    (hnests : Nests Token.opening Token.closing scan.tokens) : Nests '(' ')' line := by
  have groups := mirrorsGroups_of_run h
  have hcount := count_tokens h
  constructor
  · intro p hp
    obtain ⟨q, hq, hopenings, hclosings⟩ := groups.cuts p hp
    have hnever := hnests.prefixes q (hq.trans (List.prefix_append _ _))
    have hp_dots : p.count '.' = 0 := List.count_eq_zero.mpr fun hmem => hdots (hp.subset hmem)
    omega
  · have htotal := hnests.total
    have hline_dots : line.count '.' = 0 := List.count_eq_zero.mpr hdots
    omega

end Nested

end Scan

end LambdaSyntax
